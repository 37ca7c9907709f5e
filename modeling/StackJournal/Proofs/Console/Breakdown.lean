import StackJournal.Proofs.Console.Line
import StackJournal.Proofs.Console.Lines
import StackJournal.Proofs.Console.Sink

/-! # Runs that break down

What a console does with its lines does not depend on its sink, up to the answer that the sink does not
take. That one was carried out before it was cut off, and no line after it is. A line that is no text ends
a run before it is carried out.
-/
namespace StackJournal.Console

open Sink

variable {σ : Type} {answers : Answers σ} {state : σ} {console : Console}
variable {capacity patience : Option Nat}

def withSink (console : Console) (sink : Sink) : Console := { console with sink }

def limitedTo (console : Console) (capacity patience : Option Nat) : Console :=
  console.withSink (console.sink.limitedTo capacity patience)

def Readable (lines : List (List UInt8)) : Prop := ∀ line ∈ lines, Text.decodeLine line ≠ none

def isAnswered (line : List UInt8) : Bool := ((Text.decodeLine line).bind Command.relevant?).isSome

/-- The answer does not depend on the sink. -/
theorem run_answer_withSink (app : App) (fresh : Uuid) (console : Console) (sink : Sink)
    (words : List String) (answers : Answers σ) (state : σ) :
    ((console.withSink sink).answer app fresh words).run answers state =
      let ran := (console.answer app fresh words).run answers state
      ((ran.1.1, ran.1.2.withSink sink), ran.2) := by
  cases hwords : Command.ofWords words with
  | error usage =>
    rw [answer, answer, hwords]
    rfl
  | ok command =>
    rw [answer_eq hwords, answer_eq hwords, Plan.run_bind, Plan.run_bind]
    show ((answerAfter (console.withSink sink) command
      ((carryOut app fresh console.current command).run.run answers state).1), _) = _
    cases ((carryOut app fresh console.current command).run.run answers state).1 <;> rfl

theorem sink_answer (app : App) (fresh : Uuid) (console : Console) (words : List String)
    (answers : Answers σ) (state : σ) :
    ((console.answer app fresh words).run answers state).1.2.sink = console.sink := by
  have hsame := run_answer_withSink app fresh console console.sink words answers state
  exact congrArg (fun ran => ran.1.2.sink) hsame

/-- What comes of a line without limits, and what with limits that the sink kept within so far. -/
inductive Taken (capacity patience : Option Nat) (line : List UInt8) (console : Console) (state : σ) :
    (ran limited : (Option Breakdown × Console) × σ) → Prop where
  | unreadable (unreadable : Text.decodeLine line = none) :
      Taken capacity patience line console state ((some .unreadable, console), state)
        ((some .unreadable, console.limitedTo capacity patience), state)
  | note (readable : Text.decodeLine line ≠ none) (note : isAnswered line = false) :
      Taken capacity patience line console state ((none, console), state)
        ((none, console.limitedTo capacity patience), state)
  | answered {lines : List String} {last : Console} {after : σ} {breakdown : Option Breakdown}
      {sink : Sink} (readable : Text.decodeLine line ≠ none) (answered : isAnswered line = true)
      (takes : last.sink = console.sink.taking lines)
      (ends : Ends capacity patience console.sink last.sink (breakdown, sink)) :
      Taken capacity patience line console state ((none, last), after)
        ((breakdown, last.withSink sink), after)

theorem taken_takeLine (unlimited : console.sink.Unlimited)
    (fits : console.sink.Fits capacity patience) (app : App) (fresh : Uuid) (line : List UInt8)
    (answers : Answers σ) (state : σ) :
    Taken capacity patience line console state
      ((console.takeLine app fresh line).run answers state)
      (((console.limitedTo capacity patience).takeLine app fresh line).run answers state) := by
  cases hdecode : Text.decodeLine line with
  | none =>
    rw [takeLine_unreadable _ _ hdecode, takeLine_unreadable _ _ hdecode]
    exact .unreadable hdecode
  | some text =>
    have hreadable : Text.decodeLine line ≠ none := by simp [hdecode]
    cases hrelevant : Command.relevant? text with
    | none =>
      rw [takeLine_note _ _ hdecode hrelevant, takeLine_note _ _ hdecode hrelevant]
      exact .note hreadable (by simp [isAnswered, hdecode, hrelevant])
    | some words =>
      have hsink := sink_answer app fresh console words answers state
      rw [takeLine_words _ _ hdecode hrelevant, takeLine_words _ _ hdecode hrelevant, Plan.run_bind,
        Plan.run_bind, limitedTo, run_answer_withSink]
      generalize (console.answer app fresh words).run answers state = ran at hsink ⊢
      obtain ⟨⟨lines, last⟩, after⟩ := ran
      have hsink : last.sink = console.sink := hsink
      have hwhole := console.sink.deliver_unlimited unlimited lines
      have hends := ends_deliver fits lines
      show Taken capacity patience line console state
        (((last.sink.deliver lines).1, last.withSink (last.sink.deliver lines).2), after)
        ((((console.sink.limitedTo capacity patience).deliver lines).1,
          last.withSink ((console.sink.limitedTo capacity patience).deliver lines).2), after)
      rw [hsink, hwhole]
      generalize (console.sink.limitedTo capacity patience).deliver lines = delivered at hends ⊢
      obtain ⟨breakdown, sink⟩ := delivered
      have hanswered : isAnswered line = true := by simp [isAnswered, hdecode, hrelevant]
      have hlast : Taken capacity patience line console state
          ((none, last.withSink (console.sink.taking lines)), after) _ :=
        .answered hreadable hanswered rfl hends
      exact hlast

section Lines

variable {app : App} {ids : Nat → Uuid} {lines earlier later : List (List UInt8)}
variable {line : List UInt8} {next last : Console} {between after : σ} {breakdown : Breakdown}

theorem run_takeLines_cons (taken : (console.takeLine app (ids console.created) line).run answers
      state = ((none, next), between)) (rest : List (List UInt8)) :
    (console.takeLines app ids (line :: rest)).run answers state =
      (next.takeLines app ids rest).run answers between := by
  rw [takeLines_cons, Plan.run_bind, taken]
  rfl

theorem run_takeLines_broken (taken : (console.takeLine app (ids console.created) line).run answers
      state = ((some breakdown, next), between)) (rest : List (List UInt8)) :
    (console.takeLines app ids (line :: rest)).run answers state =
      ((some breakdown, next), between) := by
  rw [takeLines_cons, Plan.run_bind, taken]
  rfl

theorem run_takeLines_append (taken : (console.takeLines app ids earlier).run answers state =
      ((none, next), between)) (later : List (List UInt8)) :
    (console.takeLines app ids (earlier ++ later)).run answers state =
      (next.takeLines app ids later).run answers between := by
  rw [takeLines_append, Plan.run_bind, taken]
  rfl

theorem run_takeLines_unreadable (unreadable : Text.decodeLine line = none) (console : Console)
    (later : List (List UInt8)) (state : σ) :
    (console.takeLines app ids (line :: later)).run answers state =
      ((some .unreadable, console), state) := by
  apply run_takeLines_broken
  rw [takeLine_unreadable _ _ unreadable]
  rfl

theorem run_ended (taken : (console.takeLines app ids lines).run answers state =
      ((none, last), after)) : (console.run app ids lines).run answers state = (last.finish, after) := by
  rw [run_eq_takeLines, Plan.run_bind, taken]
  rfl

theorem run_broken (taken : (console.takeLines app ids lines).run answers state =
      ((some breakdown, last), after)) :
    (console.run app ids lines).run answers state = ((some breakdown, last), after) := by
  rw [run_eq_takeLines, Plan.run_bind, taken]
  rfl

structure Free (console : Console) (lines : List (List UInt8)) (last : Console)
    (breakdown : Option Breakdown) : Prop where
  unlimited : last.sink.Unlimited
  precedes : console.sink.Precedes last.sink
  flushes : Readable lines →
    last.sink.flushes.size = console.sink.flushes.size + lines.countP isAnswered
  ended : breakdown = none ↔ Readable lines
  unreadable : breakdown = none ∨ breakdown = some .unreadable

theorem readable_cons_iff {rest : List (List UInt8)} :
    Readable (line :: rest) ↔ Text.decodeLine line ≠ none ∧ Readable rest := List.forall_mem_cons

theorem free_takeLines (unlimited : console.sink.Unlimited) (app : App) (ids : Nat → Uuid)
    (lines : List (List UInt8)) (answers : Answers σ) (state : σ) :
    Free console lines ((console.takeLines app ids lines).run answers state).1.2
      ((console.takeLines app ids lines).run answers state).1.1 := by
  induction lines generalizing console state with
  | nil =>
    exact ⟨unlimited, precedes_self _, fun _ => rfl, iff_of_true rfl (by simp [Readable]), Or.inl rfl⟩
  | cons line rest ih =>
    have hfits : console.sink.Fits none none := ⟨by simp, by simp⟩
    have htaken := taken_takeLine unlimited hfits app (ids console.created) line answers state
    generalize hfirst : (console.takeLine app (ids console.created) line).run answers state = first
      at htaken
    generalize ((console.limitedTo none none).takeLine app (ids console.created) line).run answers
      state = limited at htaken
    cases htaken with
    | unreadable unreadable =>
      rw [run_takeLines_broken hfirst]
      exact ⟨unlimited, precedes_self _, fun h => absurd unreadable (readable_cons_iff.mp h).1,
        iff_of_false (by simp) fun h => (readable_cons_iff.mp h).1 unreadable, Or.inr rfl⟩
    | note readable note =>
      rw [run_takeLines_cons hfirst]
      have hrest := ih unlimited state
      refine ⟨hrest.unlimited, hrest.precedes, fun h => ?_, ?_, hrest.unreadable⟩
      · rw [hrest.flushes (readable_cons_iff.mp h).2, List.countP_cons, note]
        rfl
      · rw [hrest.ended, readable_cons_iff]
        exact (and_iff_right readable).symm
    | @answered lines last after _ _ readable answered takes _ =>
      rw [run_takeLines_cons hfirst]
      have hlast : last.sink.Unlimited := takes ▸ unlimited
      have hrest := ih hlast after
      have hprecedes := precedes_taking console.sink lines
      have hsize := console.sink.size_flushes_taking lines
      rw [← takes] at hprecedes hsize
      refine ⟨hrest.unlimited, hprecedes.trans hrest.precedes, fun h => ?_, ?_, hrest.unreadable⟩
      · rw [hrest.flushes (readable_cons_iff.mp h).2, hsize, List.countP_cons, if_pos answered]
        omega
      · rw [hrest.ended, readable_cons_iff]
        exact (and_iff_right readable).symm

/-- What comes of lines where the sink has limits: what comes of them without, or its beginning up to an
answer that is not taken to the end. -/
inductive Limited (answers : Answers σ) (capacity patience : Option Nat) (app : App)
    (ids : Nat → Uuid) (console : Console) (lines : List (List UInt8)) (state : σ) :
    (Option Breakdown × Console) × σ → Prop where
  | whole {breakdown : Option Breakdown} {last : Console} {after : σ}
      (taken : (console.takeLines app ids lines).run answers state = ((breakdown, last), after))
      (fits : last.sink.Fits capacity patience) :
      Limited answers capacity patience app ids console lines state
        ((breakdown, last.limitedTo capacity patience), after)
  | cut {earlier later : List (List UInt8)} {line : List UInt8} {before last : Console}
      {between after : σ} {breakdown : Breakdown} {sink : Sink}
      (split : lines = earlier ++ line :: later) (answered : isAnswered line = true)
      (taken : (console.takeLines app ids earlier).run answers state = ((none, before), between))
      (taken' : (console.takeLines app ids (earlier ++ [line])).run answers state =
        ((none, last), after))
      (fits : before.sink.Fits capacity patience)
      (ends : Ends capacity patience before.sink last.sink (some breakdown, sink)) :
      Limited answers capacity patience app ids console lines state
        ((some breakdown, last.withSink sink), after)

theorem Limited.cons {rest : List (List UInt8)}
    {limited : (Option Breakdown × Console) × σ}
    (h : Limited answers capacity patience app ids next rest between limited)
    (taken : (console.takeLine app (ids console.created) line).run answers state =
      ((none, next), between)) :
    Limited answers capacity patience app ids console (line :: rest) state limited := by
  cases h with
  | whole ran fits => exact .whole ((run_takeLines_cons taken rest).trans ran) fits
  | @cut earlier later _ _ _ _ _ _ _ split answered ran ran' fits ends =>
    exact .cut (congrArg (line :: ·) split) answered ((run_takeLines_cons taken _).trans ran)
      ((run_takeLines_cons taken _).trans ran') fits ends

theorem limited_takeLines (unlimited : console.sink.Unlimited)
    (fits : console.sink.Fits capacity patience) (app : App) (ids : Nat → Uuid)
    (lines : List (List UInt8)) (answers : Answers σ) (state : σ) :
    Limited answers capacity patience app ids console lines state
      (((console.limitedTo capacity patience).takeLines app ids lines).run answers state) := by
  induction lines generalizing console state with
  | nil => exact .whole rfl fits
  | cons line rest ih =>
    have htaken := taken_takeLine unlimited fits app (ids console.created) line answers state
    generalize hfirst : (console.takeLine app (ids console.created) line).run answers state = first
      at htaken
    generalize hlimited : ((console.limitedTo capacity patience).takeLine app
      (ids console.created) line).run answers state = limited at htaken
    cases htaken with
    | unreadable unreadable =>
      rw [run_takeLines_broken hlimited]
      exact .whole (run_takeLines_broken hfirst rest) fits
    | note readable note =>
      rw [run_takeLines_cons hlimited]
      exact (ih unlimited fits state).cons hfirst
    | @answered lines last after breakdown sink readable answered takes ends =>
      cases breakdown with
      | none =>
        have hlast : last.sink.Unlimited := takes ▸ unlimited
        rw [run_takeLines_cons hlimited]
        cases ends with
        | taken fits => exact (ih hlast fits after).cons hfirst
      | some breakdown =>
        rw [run_takeLines_broken hlimited]
        have hcut : (console.takeLines app ids ([] ++ [line])).run answers state =
          ((none, last), after) := run_takeLines_cons hfirst []
        exact .cut rfl answered rfl hcut fits ends

/-- Where the whole output fits, limits change nothing. -/
theorem Limited.of_fits {limited : (Option Breakdown × Console) × σ}
    (h : Limited answers capacity patience app ids console lines state limited)
    (unlimited : console.sink.Unlimited) {breakdown : Option Breakdown}
    (taken : (console.takeLines app ids lines).run answers state = ((breakdown, last), after))
    (fits : last.sink.Fits capacity patience) :
    limited = ((breakdown, last.limitedTo capacity patience), after) := by
  cases h with
  | whole ran _ =>
    rw [taken] at ran
    cases ran
    rfl
  | @cut earlier later line _ middle _ halted _ _ split _ _ ran' _ ends =>
    -- what is held after the line that was cut off is still held at the end
    have hmiddle := free_takeLines unlimited app ids (earlier ++ [line]) answers state
    rw [ran'] at hmiddle
    have hlast := free_takeLines hmiddle.unlimited app ids later answers halted
    rw [split, List.append_cons, run_takeLines_append ran'] at taken
    rw [taken] at hlast
    exact absurd (hlast.precedes.fits fits) ends.not_fits

end Lines

theorem finish_unlimited (unlimited : console.sink.Unlimited) :
    console.finish = (none, console.withSink console.sink.flushed) := by
  have hflush := console.sink.flush_fits (by simp [unlimited.2])
  rw [finish, hflush]
  rfl

/-- The end of the input is one more answer, without lines. -/
theorem exists_ends_finish (fits : console.sink.Fits capacity patience) :
    ∃ breakdown sink, Ends capacity patience console.sink console.sink.flushed (breakdown, sink) ∧
      (console.limitedTo capacity patience).finish = (breakdown, console.withSink sink) := by
  have hends := ends_deliver fits []
  rw [taking_nil] at hends
  exact ⟨_, _, hends, rfl⟩

theorem exists_run_readable (unlimited : console.sink.Unlimited) {lines : List (List UInt8)}
    (readable : Readable lines) (app : App) (ids : Nat → Uuid) (answers : Answers σ) (state : σ) :
    ∃ last after, (console.takeLines app ids lines).run answers state = ((none, last), after) ∧
      Free console lines last none := by
  have hfree := free_takeLines unlimited app ids lines answers state
  generalize (console.takeLines app ids lines).run answers state = ran at hfree ⊢
  obtain ⟨⟨breakdown, last⟩, after⟩ := ran
  obtain rfl : breakdown = none := hfree.ended.mpr readable
  exact ⟨last, after, rfl, hfree⟩

/-- What a run without limits does, where `taken` tells what comes of lines before the input ends. -/
structure Unbroken (taken : List (List UInt8) → (Option Breakdown × Console) × σ)
    (lines : List (List UInt8)) (whole : (Option Breakdown × Console) × σ) : Prop where
  /-- Each answer is followed by one flush. -/
  answered : ∀ earlier line, Readable (earlier ++ [line]) → isAnswered line = true →
    (taken (earlier ++ [line])).1.2.sink.flushes =
      (taken earlier).1.2.sink.flushes.push (taken (earlier ++ [line])).1.2.sink.lineCount
  /-- Any other line leaves no trace. -/
  idle : ∀ earlier line, Readable (earlier ++ [line]) → isAnswered line = false →
    taken (earlier ++ [line]) = taken earlier
  /-- One more flush follows when all lines are taken. -/
  ended : Readable lines → (taken lines).1.1 = none ∧
    whole = ((none, (taken lines).1.2.withSink (taken lines).1.2.sink.flushed), (taken lines).2) ∧
    whole.1.2.sink.flushes.size = lines.countP isAnswered + 1
  /-- A line that is no text ends the run when those before it are taken. -/
  unreadable : ∀ earlier line later, lines = earlier ++ line :: later → Readable earlier →
    Text.decodeLine line = none → (taken earlier).1.1 = none ∧
      whole = ((some .unreadable, (taken earlier).1.2), (taken earlier).2)

/-- What a run does whose sink has limits, where `whole` is the run without them. -/
structure CutOff (taken : List (List UInt8) → (Option Breakdown × Console) × σ)
    (lines : List (List UInt8)) (capacity patience : Option Nat)
    (whole cut : (Option Breakdown × Console) × σ) : Prop where
  /-- It succeeds just if that one does and keeps within the limits. -/
  succeeds : cut.1.1 = none ↔ whole.1.1 = none ∧ whole.1.2.sink.Fits capacity patience
  begins : ∃ more, whole.1.2.sink.written = cut.1.2.sink.written ++ more
  full : cut.1.1 = some .sinkFull → ∃ most ∈ capacity, most < whole.1.2.sink.written.size ∧
    cut.1.2.sink.written = whole.1.2.sink.written.extract 0 most
  /-- The first answer that does not fit is that of the last line taken, if all is not answered. -/
  stopped : cut.1.1 = some .sinkFull ∨ cut.1.1 = some .flushRefused →
    (∃ earlier line later, lines = earlier ++ line :: later ∧ isAnswered line = true ∧
      (taken earlier).1.2.sink.Fits capacity patience ∧
      ¬(taken (earlier ++ [line])).1.2.sink.Fits capacity patience ∧
      cut.1.2.current = (taken (earlier ++ [line])).1.2.current ∧
      cut.2 = (taken (earlier ++ [line])).2) ∨
    Readable lines ∧ (taken lines).1.2.sink.Fits capacity patience ∧
      cut.1.2.sink.written = whole.1.2.sink.written ∧ cut.1.2.current = whole.1.2.current ∧
      cut.2 = whole.2
  unreadable : ∀ earlier line later, lines = earlier ++ line :: later → Readable earlier →
    Text.decodeLine line = none → (taken earlier).1.2.sink.Fits capacity patience →
      cut = ((some .unreadable, (taken earlier).1.2.limitedTo capacity patience), (taken earlier).2)

theorem readable_concat_iff {earlier : List (List UInt8)} {line : List UInt8} :
    Readable (earlier ++ [line]) ↔ Readable earlier ∧ Text.decodeLine line ≠ none := by
  simp [Readable, or_imp, forall_and]

/-- One line of text more. -/
theorem exists_taken_concat (unlimited : console.sink.Unlimited) {earlier : List (List UInt8)}
    {line : List UInt8} (readable : Readable (earlier ++ [line])) (app : App) (ids : Nat → Uuid)
    (answers : Answers σ) (state : σ) : ∃ before between last after,
      (console.takeLines app ids earlier).run answers state = ((none, before), between) ∧
      (console.takeLines app ids (earlier ++ [line])).run answers state = ((none, last), after) ∧
      (isAnswered line = false → (last, after) = (before, between)) ∧
      (isAnswered line = true → ∃ lines, last.sink = before.sink.taking lines) := by
  obtain ⟨hreadable, hline⟩ := readable_concat_iff.mp readable
  obtain ⟨before, between, hearlier, hfree⟩ :=
    exists_run_readable unlimited hreadable app ids answers state
  have hfits : before.sink.Fits none none := ⟨by simp, by simp⟩
  have htaken := taken_takeLine hfree.unlimited hfits app (ids before.created) line answers between
  generalize hfirst : (before.takeLine app (ids before.created) line).run answers between = first
    at htaken
  generalize ((before.limitedTo none none).takeLine app (ids before.created) line).run answers
    between = limited at htaken
  cases htaken with
  | unreadable unreadable => exact absurd unreadable hline
  | note _ note =>
    refine ⟨before, between, before, between, hearlier, ?_, fun _ => rfl, fun answered => ?_⟩
    · rw [run_takeLines_append hearlier, run_takeLines_cons hfirst]
      rfl
    · simp [note] at answered
  | @answered lines last after _ _ _ answered takes _ =>
    refine ⟨before, between, last, after, hearlier, ?_, fun idle => ?_, fun _ => ⟨lines, takes⟩⟩
    · rw [run_takeLines_append hearlier, run_takeLines_cons hfirst]
      rfl
    · simp [idle] at answered

theorem unbroken_run (app : App) (ids : Nat → Uuid) (answers : Answers σ) (state : σ)
    (lines : List (List UInt8)) :
    Unbroken (fun lines => ((start .unlimited).takeLines app ids lines).run answers state) lines
      (((start .unlimited).run app ids lines).run answers state) := by
  have hunlimited : (start .unlimited).sink.Unlimited := ⟨rfl, rfl⟩
  constructor
  · intro earlier line readable answered
    obtain ⟨before, between, last, after, hearlier, hlines, _, htakes⟩ :=
      exists_taken_concat hunlimited readable app ids answers state
    obtain ⟨lines, hlast⟩ := htakes answered
    simp only [hearlier, hlines, hlast]
    rfl
  · intro earlier line readable idle
    obtain ⟨before, between, last, after, hearlier, hlines, hsame, _⟩ :=
      exists_taken_concat hunlimited readable app ids answers state
    cases hsame idle
    simp only [hearlier, hlines]
  · intro readable
    obtain ⟨last, after, hlines, hfree⟩ :=
      exists_run_readable hunlimited readable app ids answers state
    have hsize := hfree.flushes readable
    rw [run_ended hlines, finish_unlimited hfree.unlimited]
    simp only [hlines]
    simp [withSink, flushed, hsize, start, Sink.unlimited]
  · intro earlier line later split readable unreadable
    obtain ⟨before, between, hearlier, _⟩ :=
      exists_run_readable hunlimited readable app ids answers state
    have hlines : ((start .unlimited).takeLines app ids lines).run answers state =
        ((some .unreadable, before), between) := by
      rw [split, run_takeLines_append hearlier, run_takeLines_unreadable unreadable]
    rw [run_broken hlines]
    simp only [hearlier, and_self]

/-- All that was written when some lines were taken is kept to the end of the run. -/
theorem precedes_run {earlier : List (List UInt8)} {last : Console} {app : App} {ids : Nat → Uuid}
    {after : σ} (unlimited : last.sink.Unlimited)
    (taken : (console.takeLines app ids earlier).run answers state = ((none, last), after))
    (later : List (List UInt8)) :
    last.sink.Precedes ((console.run app ids (earlier ++ later)).run answers state).1.2.sink := by
  have hfree := free_takeLines unlimited app ids later answers after
  have hlines := run_takeLines_append taken later
  generalize (last.takeLines app ids later).run answers after = ran at hfree hlines
  obtain ⟨⟨breakdown, final⟩, halted⟩ := ran
  refine hfree.precedes.trans ?_
  cases breakdown with
  | none =>
    rw [run_ended hlines, finish_unlimited hfree.unlimited]
    exact precedes_flushed final.sink
  | some breakdown =>
    rw [run_broken hlines]
    exact precedes_self final.sink

section Start

variable (app : App) (ids : Nat → Uuid) (answers : Answers σ) (state : σ)

theorem limited_start (lines : List (List UInt8)) (capacity patience : Option Nat) :
    Limited answers capacity patience app ids (start .unlimited) lines state
      (((start (.limited capacity patience)).takeLines app ids lines).run answers state) := by
  have hfits : (start .unlimited).sink.Fits capacity patience :=
    ⟨fun most _ => Nat.zero_le most, fun most _ => Nat.zero_le most⟩
  exact limited_takeLines ⟨rfl, rfl⟩ hfits app ids lines answers state

theorem run_limited_unreadable (lines : List (List UInt8)) (capacity patience : Option Nat)
    (earlier : List (List UInt8)) (line : List UInt8) (later : List (List UInt8))
    (split : lines = earlier ++ line :: later) (readable : Readable earlier)
    (unreadable : Text.decodeLine line = none)
    (room : (((start .unlimited).takeLines app ids earlier).run answers state).1.2.sink.Fits
      capacity patience) :
    ((start (.limited capacity patience)).run app ids lines).run answers state =
      ((some .unreadable, (((start .unlimited).takeLines app ids earlier).run answers
        state).1.2.limitedTo capacity patience),
      (((start .unlimited).takeLines app ids earlier).run answers state).2) := by
  have hunlimited : (start .unlimited).sink.Unlimited := ⟨rfl, rfl⟩
  obtain ⟨before, between, hbefore, _⟩ :=
    exists_run_readable hunlimited readable app ids answers state
  rw [hbefore] at room ⊢
  have hcut := (limited_start app ids answers state earlier capacity patience).of_fits hunlimited
    hbefore room
  refine run_broken ?_
  rw [split, run_takeLines_append hcut, run_takeLines_unreadable unreadable]

theorem cutOff_run (lines : List (List UInt8)) (capacity patience : Option Nat) :
    CutOff (fun lines => ((start .unlimited).takeLines app ids lines).run answers state) lines
      capacity patience (((start .unlimited).run app ids lines).run answers state)
      (((start (.limited capacity patience)).run app ids lines).run answers state) := by
  have hunreadable := run_limited_unreadable app ids answers state lines capacity patience
  have hunlimited : (start .unlimited).sink.Unlimited := ⟨rfl, rfl⟩
  have hlimited := limited_start app ids answers state lines capacity patience
  generalize hcut : ((start (.limited capacity patience)).takeLines app ids lines).run answers
    state = limited at hlimited
  cases hlimited with
  | @whole breakdown last after taken fits =>
    have hfree := free_takeLines hunlimited app ids lines answers state
    rw [taken] at hfree
    cases breakdown with
    | some breakdown =>
      obtain rfl : breakdown = .unreadable := by simpa using hfree.unreadable
      refine ⟨?_, ?_, ?_, ?_, hunreadable⟩ <;> rw [run_broken hcut, run_broken taken]
      · simp
      · exact ⟨.empty, ByteArray.append_empty.symm⟩
      · simp
      · simp
    | none =>
      obtain ⟨breakdown, sink, hends, hfinish⟩ := exists_ends_finish fits
      refine ⟨?_, ?_, ?_, fun _ => Or.inr ?_, hunreadable⟩ <;>
        rw [run_ended hcut, hfinish, run_ended taken, finish_unlimited hfree.unlimited]
      · simpa [withSink] using hends.eq_none_iff
      · exact hends.written (precedes_self _)
      · rintro rfl
        exact hends.filled (precedes_self _)
      · simp only [taken, and_true]
        refine ⟨hfree.ended.mp rfl, fits, ?_, rfl⟩
        -- there was room for all, so that it was the flush that was refused
        cases hends with
        | taken _ => rfl
        | full limit beyond => exact absurd (fits.written _ limit) (Nat.not_le_of_lt beyond)
        | refused _ _ _ => rfl
  | @cut earlier later line before last between after breakdown sink split answered taken taken' fits
      ends =>
    have hlast := (free_takeLines hunlimited app ids (earlier ++ [line]) answers state).unlimited
    rw [taken'] at hlast
    have hprecedes := precedes_run hlast taken' later
    rw [← List.append_cons, ← split] at hprecedes
    have hran := run_broken hcut
    refine ⟨?_, ?_, ?_, fun _ => Or.inl ⟨earlier, line, later, split, answered, ?_⟩, hunreadable⟩
    · rw [hran]
      exact iff_of_false (by simp) fun h => ends.not_fits (hprecedes.fits h.2)
    · rw [hran]
      exact ends.written hprecedes
    · rw [hran]
      intro hfull
      obtain rfl : breakdown = .sinkFull := by simpa using hfull
      exact ends.filled hprecedes
    · simp only [taken, taken', hran, and_true]
      exact ⟨fits, ends.not_fits, rfl⟩

/-- A run with limits does what one without them does, up to the end of the line whose answer the sink
does not take, and holds the beginning of what that one writes. -/
theorem limits_cut_run (lines : List (List UInt8)) (capacity patience : Option Nat) :
    let taken (lines : List (List UInt8)) :=
      ((start .unlimited).takeLines app ids lines).run answers state
    let whole := ((start .unlimited).run app ids lines).run answers state
    let cut := ((start (.limited capacity patience)).run app ids lines).run answers state
    Unbroken taken lines whole ∧ CutOff taken lines capacity patience whole cut :=
  ⟨unbroken_run app ids answers state lines,
    cutOff_run app ids answers state lines capacity patience⟩

end Start

def commandsThenByte : List (List UInt8) :=
  [Text.encode "new".toList, Text.encode "zero".toList, [0xff]]

/-- A sink that takes 40 bytes has filled up in the second answer, so the last line is never reached. -/
theorem second_answer_cut :
    let whole := ((start .unlimited).run .standard (fun _ => ⟨7⟩) commandsThenByte).run
      (Store.answers .epoch .sound) (Store.memory .empty)
    let cut := ((start (.limited (some 40) none)).run .standard (fun _ => ⟨7⟩)
      commandsThenByte).run (Store.answers .epoch .sound) (Store.memory .empty)
    whole.1.1 = some .unreadable ∧ cut.1.1 = some .sinkFull ∧
      cut.1.2.sink.written = whole.1.2.sink.written.extract 0 40 := by
  intro whole cut
  have hwhole : whole.1.1 = some .unreadable := by decide +kernel
  have hcut : cut.1.1 = some .sinkFull := by decide +kernel
  obtain ⟨_, hcutOff⟩ := limits_cut_run .standard (fun _ => ⟨7⟩) (Store.answers .epoch .sound)
    (Store.memory .empty) commandsThenByte (some 40) none
  obtain ⟨most, limit, _, hwritten⟩ := hcutOff.full hcut
  cases Option.mem_some_iff.mp limit
  exact ⟨hwhole, hcut, hwritten⟩

end StackJournal.Console
