import StackJournal.Proofs.Feed.Drained
import StackJournal.Proofs.Feed.Sections

/-! # Reading on after a stop

Whoever stops reading, or is stopped by a read that fails, knows from the last event it was handed
how to go on. A feed from the next position delivers what was left of the first and then what was
appended since.
-/
namespace StackJournal

namespace Log

variable {log longer : Log}

/-- Events from a position on that a log has, followed by those that were appended. -/
theorem Ordered.filter_extends (ordered : longer.Ordered) (h : longer.Extends log) {position : Nat}
    (hwithin : position ≤ log.lastPosition + 1) :
    longer.events.toList.filter (max position 1 ≤ ·.position) =
      log.events.toList.drop (position - 1) ++ longer.events.toList.drop log.lastPosition := by
  obtain ⟨more, hmore⟩ := h
  have hlength : log.lastPosition = log.events.toList.length := rfl
  rw [ordered.filter_position, ← hmore, List.drop_append_of_le_length (by omega), hlength,
    List.drop_left]

end Log

namespace Feed

variable {σ : Type} {answers : Answers σ} {log : σ → Log} {state : σ}
variable {others : List (σ → σ)} {failure : Nat → Option StoreError} {error : StoreError}

theorem map_fst_trace (feed : Feed) (due : List Event) (stop : Nat) (error : StoreError)
    (pulls : Nat) : (feed.trace due stop error pulls).map Prod.fst =
      (List.range pulls).map (outcomeAt due stop error) := by
  rw [trace, List.map_map]
  rfl

/-- Once all is handed out or a read has failed, nothing comes and nothing is read. -/
theorem drop_trace (feed : Feed) (due : List Event) (stop : Nat) (error : StoreError)
    (pulls : Nat) : (feed.trace due stop error pulls).drop (stop + 1) =
      List.replicate (pulls - (stop + 1)) (none, []) := by
  refine List.ext_getElem (by simp [trace]) fun i hleft _ => ?_
  have hover : ¬stop + 1 + i < stop := by omega
  have hlater : ¬stop + 1 + i ≤ stop := by omega
  have hpast : ¬(stop + 1 + i = stop ∧ stop < due.length) := by omega
  simp only [trace, List.getElem_drop, List.getElem_map, List.getElem_range, outcomeAt, hover, hpast,
    hlater, if_false, List.getElem_replicate]

/-- The last of some events that were handed out tells how many they are. -/
theorem position_of_mem_getLast? {slice : List Event} {first count : Nat}
    (positions : slice.map (·.position) = List.range' first slice.length) {last : Event}
    (hlast : last ∈ (slice.take count).getLast?) :
    last.position + 1 = first + (slice.take count).length := by
  have hmapped : ((slice.take count).map (·.position)).getLast? = some last.position := by
    rw [List.getLast?_map, Option.mem_def.mp hlast]
    rfl
  rw [List.map_take, positions, Log.take_range', ← List.length_take] at hmapped
  generalize (slice.take count).length = length at hmapped ⊢
  cases length with
  | zero => exact nomatch hmapped
  | succ length =>
    rw [List.range'_concat, List.getLast?_concat, Option.some.injEq] at hmapped
    omega

/-- A feed that starts where another stopped delivers what the other had left, and then what was
appended since. -/
theorem resumes (complete : Complete answers log)
    (grows : ∀ other ∈ others, ∀ store, (log (other store)).Extends (log store))
    {before : Log} (ordered : (log state).Ordered) (hextends : (log state).Extends before)
    {position : Nat} (hwithin : position ≤ before.lastPosition + 1) (size : Nat) :
    ∃ feed after, (Feed.start size position).run answers state = (.ok feed, after) ∧
      (feed.pulls answers others after).map Prod.fst = (List.range others.length).map
        ((before.events.toList.drop (position - 1) ++
          (log state).events.toList.drop before.lastPosition)[·]?.map .ok) := by
  obtain ⟨feed, after, hstart, _, houtcomes, _⟩ :=
    delivers_slice grows complete.pages ordered size position
  rw [ordered.filter_extends hextends hwithin] at houtcomes
  exact ⟨feed, after, hstart, houtcomes⟩

/-- What an interrupted feed was handed out, and how its last event tells what was left. -/
theorem left_of_getLast? {before : Log} (ordered : before.Ordered) {position count : Nat}
    {last : Event} (hlast : last ∈
      ((before.events.toList.filter (max position 1 ≤ ·.position)).take count).getLast?) :
    let slice := before.events.toList.filter (max position 1 ≤ ·.position)
    position ≤ before.lastPosition + 1 ∧ last.position ≤ before.lastPosition ∧
      before.events.toList.drop last.position = slice.drop (slice.take count).length := by
  intro slice
  have hpositions := ordered.positions_from position
  have hlength := congrArg List.length hpositions
  rw [List.length_map, List.length_range'] at hlength
  rw [← hlength] at hpositions
  have hnext := position_of_mem_getLast? hpositions hlast
  have hsome : 0 < (slice.take count).length :=
    List.length_pos_of_mem (List.mem_of_mem_getLast? hlast)
  have hfew : (slice.take count).length ≤ slice.length := List.length_take_le' count slice
  have hslice : slice = before.events.toList.drop (position - 1) := ordered.filter_position position
  change slice.length = _ at hlength
  change last.position + 1 = max position 1 + (slice.take count).length at hnext
  refine ⟨by omega, by omega, ?_⟩
  generalize (slice.take count).length = handed at hnext hsome hfew ⊢
  have hsplit : last.position = position - 1 + handed := by omega
  rw [hslice, List.drop_drop, hsplit]

/-- What an interrupted run of pulls comes to. -/
theorem interrupted (complete : Complete answers log)
    (grows : ∀ other ∈ others, ∀ store, (log (other store)).Extends (log store))
    (ordered : (log state).Ordered) (size position answered : Nat)
    (sound : ∀ read < answered, failure read = none)
    (fails : answered * max size 1 <
        ((log state).events.toList.filter (max position 1 ≤ ·.position)).length →
      failure answered = some error) :
    ∃ feed after,
      (Feed.start size position).run (Faulty.answers answers failure) ⟨state, 0⟩ =
        (.ok feed, after) ∧
      let slice := (log state).events.toList.filter (max position 1 ≤ ·.position)
      feed.pulls (Faulty.answers answers failure) (others.map Faulty.meanwhile) after =
        feed.trace slice (min slice.length (answered * max size 1)) error others.length := by
  have hlast : (Faulty.answers answers failure .last ⟨state, 0⟩).1 =
    .ok (log state).lastPosition := complete.last state
  refine ⟨_, ⟨(answers .last state).2, 0⟩, run_start hlast size position, ?_⟩
  intro slice
  obtain ⟨hrunning, hdue⟩ := begun_start complete.pages ordered size position
  have hreach : (begun size position (log state).lastPosition).reach answered slice.length =
      min slice.length (answered * max size 1) := congrArg (min _) (Nat.zero_add _)
  change _ = slice at hdue
  rw [← hreach, ← hdue]
  refine pulls_eq_trace complete grows hrunning ?_ ?_
  · simpa only [Nat.zero_add] using sound
  · rw [hdue, Nat.zero_add]
    exact fun hless => fails (show _ < slice.length by omega)

/-- A feed whose reads are answered up to one that fails hands out the sections it got, then the error
once, and then nothing, without a read. Wherever its reader stops, a feed from behind the last event
that came delivers what was left and then what was appended since: together they have every position
once and in order. -/
theorem interrupted_resumes (complete : Complete answers log)
    (grows : ∀ other ∈ others, ∀ store, (log (other store)).Extends (log store))
    (ordered : (log state).Ordered) (size position answered : Nat)
    (sound : ∀ read < answered, failure read = none)
    (fails : answered * max size 1 <
        ((log state).events.toList.filter (max position 1 ≤ ·.position)).length →
      failure answered = some error) :
    ∃ feed after,
      (Feed.start size position).run (Faulty.answers answers failure) ⟨state, 0⟩ =
        (.ok feed, after) ∧
      let slice := (log state).events.toList.filter (max position 1 ≤ ·.position)
      let stop := min slice.length (answered * max size 1)
      let pulled := feed.pulls (Faulty.answers answers failure) (others.map Faulty.meanwhile) after
      pulled.map Prod.fst = (List.range others.length).map (outcomeAt slice stop error) ∧
      pulled.drop (stop + 1) = List.replicate (others.length - (stop + 1)) (none, []) ∧
      received pulled = slice.take (min others.length stop) ∧
      ∀ last ∈ (received pulled).getLast?, ∀ later, (log later).Ordered →
        (log later).Extends (log state) → ∀ size' others',
        (∀ other ∈ others', ∀ store, (log (other store)).Extends (log store)) →
        ∃ feed' after', (Feed.start size' (last.position + 1)).run answers later =
            (.ok feed', after') ∧
          let still := slice.drop (received pulled).length
          let appended := (log later).events.toList.drop (log state).lastPosition
          (feed'.pulls answers others' after').map Prod.fst =
            (List.range others'.length).map ((still ++ appended)[·]?.map .ok) ∧
          (received pulled ++ (still ++ appended)).map (·.position) =
            List.range' (max position 1) ((log later).lastPosition + 1 - max position 1) := by
  obtain ⟨feed, after, hstart, hpulled⟩ :=
    interrupted complete grows ordered size position answered sound fails
  refine ⟨feed, after, hstart, ?_⟩
  intro slice stop pulled
  have htrace : pulled = feed.trace slice stop error others.length := hpulled
  have hreceived : received pulled = slice.take (min others.length stop) := by
    rw [htrace, received_trace]
  refine ⟨?_, ?_, hreceived, ?_⟩
  · rw [htrace, map_fst_trace]
  · rw [htrace, drop_trace]
  · intro last hlast later orderedLater hextends size' others' grows'
    rw [hreceived] at hlast ⊢
    obtain ⟨hwithin, hposition, hleft⟩ := left_of_getLast? ordered hlast
    obtain ⟨feed', after', hstart', houtcomes⟩ :=
      resumes complete grows' orderedLater hextends (Nat.add_le_add_right hposition 1) size'
    rw [Nat.add_sub_cancel, hleft] at houtcomes
    refine ⟨feed', after', hstart', houtcomes, ?_⟩
    have hwhole := List.prefix_iff_eq_append.mp (List.take_prefix (min others.length stop) slice)
    have hall := orderedLater.filter_extends hextends hwithin
    rw [← ordered.filter_position] at hall
    rw [← orderedLater.positions_from, hall, ← List.append_assoc, hwhole]

def afterTwo (read : Nat) : Option StoreError := if read < 2 then none else some .poisoned

/-- Of three events two are delivered, one a read, before the third read fails. A feed from the next
position delivers the third event, and a fourth that was appended since. -/
theorem third_read_resumed : Complete (Store.answers .epoch .sound) Store.log ∧
    (∀ other ∈ [id, id, oneMoreStored, id], ∀ store,
      (Store.log (other store)).Extends store.log) ∧
    shortStore.log.Ordered ∧ (∀ read < 2, afterTwo read = none) ∧ afterTwo 2 = some .poisoned ∧
    ∃ feed after,
      (Feed.start 1 0).run (Faulty.answers (Store.answers .epoch .sound) afterTwo) ⟨shortStore, 0⟩ =
        (.ok feed, after) ∧
      (feed.pulls (Faulty.answers (Store.answers .epoch .sound) afterTwo)
          ([id, id, oneMoreStored, id].map Faulty.meanwhile) after).map Prod.fst =
        [some (.ok ⟨⟨0⟩, 1, .create, none, 1, .epoch⟩),
          some (.ok ⟨⟨1⟩, 1, .create, none, 2, .epoch⟩), some (.error .poisoned), none] ∧
      ∃ feed' after',
        (Feed.start 5 3).run (Store.answers .epoch .sound) (oneMoreStored shortStore) =
          (.ok feed', after') ∧
        (feed'.pulls (Store.answers .epoch .sound) [id, id, id] after').map Prod.fst =
          [some (.ok ⟨⟨0⟩, 2, .kapp .zero, none, 3, .epoch⟩),
            some (.ok ⟨⟨0⟩, 3, .kapp .dup, none, 4, .epoch⟩), none] := by
  have complete := Store.complete .epoch .sound
  have grows : ∀ other ∈ [id, id, oneMoreStored, id], ∀ store,
      (Store.log (other store)).Extends store.log := grows_oneMoreStored (by simp)
  have calm : ∀ other ∈ [id, id, id], ∀ store,
      (Store.log (other store)).Extends store.log := grows_oneMoreStored (by simp)
  have ordered : shortStore.log.Ordered := Log.ordered_empty.run _
  have sound : ∀ read < 2, afterTwo read = none := fun _ hread => if_pos hread
  obtain ⟨feed, after, hstart, houtcomes, _, hreceived, hresumed⟩ :=
    interrupted_resumes complete grows ordered 1 0 2 sound fun _ => rfl
  have hlast : ⟨⟨1⟩, 1, .create, none, 2, .epoch⟩ ∈ (received
      (feed.pulls (Faulty.answers (Store.answers .epoch .sound) afterTwo)
        ([id, id, oneMoreStored, id].map Faulty.meanwhile) after)).getLast? := by
    rw [hreceived]
    rfl
  have orderedLater : (oneMoreStored shortStore).log.Ordered :=
    ordered.append .epoch ⟨⟨0⟩, 2, .kapp .dup, none⟩
  obtain ⟨feed', after', hstart', hrest, _⟩ := hresumed _ hlast (oneMoreStored shortStore)
    orderedLater (extends_oneMore _) 5 [id, id, id] calm
  rw [hreceived] at hrest
  exact ⟨complete, grows, ordered, sound, rfl, feed, after, hstart, houtcomes, feed', after',
    hstart', hrest⟩

end Feed

end StackJournal
