import Mathlib.Algebra.BigOperators.Group.List.Lemmas
import StackJournal.Proofs.Clients.Dispatch
import StackJournal.Proofs.Feed.Drained

/-! # The audit trail and its counts

What the application lists and what it counts from a position on are told from the same events. So
the counts are those of the trail, and both can be taken apart at any later position.
-/
namespace StackJournal

namespace App

def occurrences (vocabulary : List String) (entries : List LogEntry) (name : String) : Nat :=
  if name ∈ vocabulary then (entries.map (·.kind.name)).count name else 0

def numberOf (counts : List (String × Nat)) (name : String) : Nat := (counts.lookup name).getD 0

/-- The counts have one number for each name of the vocabulary that occurs in an audit trail, which
is how often it occurs, and none for any other name. -/
structure Tallies (vocabulary : List String) (entries : List LogEntry)
    (counts : List (String × Nat)) : Prop where
  nodup : (counts.map Prod.fst).Nodup
  mem_iff : ∀ name number, (name, number) ∈ counts ↔
    number = occurrences vocabulary entries name ∧ number ≠ 0

variable {vocabulary : List String} {entries : List LogEntry} {names : List String}

theorem occurrences_append (more : List LogEntry) (name : String) :
    occurrences vocabulary (entries ++ more) name =
      occurrences vocabulary entries name + occurrences vocabulary more name := by
  rw [occurrences, occurrences, occurrences]
  split
  · rw [List.map_append, List.count_append]
  · rfl

theorem Tallies.numberOf_eq {counts : List (String × Nat)} (h : Tallies vocabulary entries counts)
    (name : String) : numberOf counts name = occurrences vocabulary entries name := by
  rw [numberOf]
  cases hfound : counts.lookup name with
  | some number =>
    obtain ⟨before, after, hcounts, _⟩ := List.lookup_eq_some_iff.mp hfound
    have hmem : (name, number) ∈ counts := by simp [hcounts]
    exact ((h.mem_iff name number).mp hmem).1
  | none =>
    by_contra hsome
    have hmem := (h.mem_iff name _).mpr ⟨rfl, Ne.symm hsome⟩
    have hother := List.lookup_eq_none_iff.mp hfound _ hmem
    simp at hother

theorem tally_names_perm (names : List String) :
    (names.eraseDups.mergeSort (· ≤ ·)).Perm names.dedup := by
  refine (List.mergeSort_perm _ _).trans ?_
  refine (List.perm_ext_iff_of_nodup (nodup_eraseDups _) (List.nodup_dedup _)).mpr fun name => ?_
  rw [List.mem_eraseDups, List.mem_dedup]

theorem map_fst_tally (names : List String) :
    (tally names).map Prod.fst = names.eraseDups.mergeSort (· ≤ ·) := by
  rw [tally, List.map_map]
  exact List.map_id _

theorem mem_tally_iff {name : String} {number : Nat} :
    (name, number) ∈ tally names ↔ number = names.count name ∧ number ≠ 0 := by
  rw [tally, List.mem_map]
  constructor
  · rintro ⟨_, hmem, heq⟩
    obtain ⟨rfl, rfl⟩ := Prod.mk.inj heq
    rw [(tally_names_perm names).mem_iff, List.mem_dedup] at hmem
    exact ⟨rfl, (List.count_pos_iff.mpr hmem).ne'⟩
  · rintro ⟨rfl, hsome⟩
    refine ⟨name, ?_, rfl⟩
    rw [(tally_names_perm names).mem_iff, List.mem_dedup]
    exact List.count_pos_iff.mp (Nat.pos_of_ne_zero hsome)

/-- The numbers of a tally sum up to the number of names. -/
theorem sum_tally (names : List String) : ((tally names).map Prod.snd).sum = names.length := by
  rw [tally, List.map_map]
  calc _ = (names.dedup.map (names.count ·)).sum :=
        ((tally_names_perm names).map _).sum_eq
    _ = names.length := List.sum_map_count_dedup_eq_length names

/-- The tally of the grounded names of a trail. -/
theorem tallies_tally (app : App) (entries : List LogEntry) :
    Tallies app.gate.vocabulary entries
      (tally ((entries.map (·.kind.name)).filter app.gate.isGrounded)) where
  nodup := by
    rw [map_fst_tally, (tally_names_perm _).nodup_iff]
    exact List.nodup_dedup _
  mem_iff name number := by
    have hcount : ((entries.map (·.kind.name)).filter app.gate.isGrounded).count name =
        occurrences app.gate.vocabulary entries name := by
      rw [occurrences]
      split
      next listed => exact List.count_filter (List.contains_iff_mem.mpr listed)
      next unlisted =>
        refine List.count_eq_zero.mpr fun hmem => unlisted ?_
        exact List.contains_iff_mem.mp (List.mem_filter.mp hmem).2
    rw [mem_tally_iff, hcount]

theorem isGrounded_standard_kind (kind : EventKind) :
    Gate.standard.isGrounded kind.name = decide (kind ≠ .create) := by
  cases kind with
  | create => decide
  | kapp k => cases k <;> decide

/-- The standard application counts all but the creations. -/
theorem sum_tally_standard (entries : List LogEntry) :
    ((tally ((entries.map (·.kind.name)).filter standard.gate.isGrounded)).map Prod.snd).sum =
      entries.countP (·.kind ≠ .create) := by
  have hgate : standard.gate.isGrounded ∘ (fun entry : LogEntry => entry.kind.name) =
      fun entry => decide (entry.kind ≠ .create) :=
    funext fun entry => isGrounded_standard_kind entry.kind
  rw [sum_tally, ← List.countP_eq_length_filter, List.countP_map, hgate]

theorem create_not_mem {entries : List LogEntry} {counts : List (String × Nat)}
    (h : Tallies standard.gate.vocabulary entries counts) (number : Nat) :
    (EventKind.create.name, number) ∉ counts := by
  intro hmem
  obtain ⟨hnumber, hsome⟩ := (h.mem_iff _ _).mp hmem
  have hunlisted : EventKind.create.name ∉ standard.gate.vocabulary := by decide
  exact hsome (hnumber.trans (if_neg hunlisted))

variable {store : Store}

/-- The events from one position on are those before another, and those from there on. -/
theorem slice_split {log : Log} (ordered : log.Ordered) {start split : Nat} (h : start ≤ split) :
    let slice := log.events.toList.filter (max start 1 ≤ ·.position)
    slice = slice.filter (·.position < max split 1) ++
      log.events.toList.filter (max split 1 ≤ ·.position) := by
  intro slice
  have hpositions := ordered.positions_from start
  have hlength := congrArg List.length hpositions
  rw [List.length_map, List.length_range'] at hlength
  rw [← hlength] at hpositions
  have hlater : slice.filter (max split 1 ≤ ·.position) =
      log.events.toList.filter (max split 1 ≤ ·.position) := by
    rw [List.filter_filter]
    refine List.filter_congr fun event _ => ?_
    rw [← Bool.decide_and, decide_eq_decide]
    omega
  rw [← hlater, Log.filter_lt_append_filter_le hpositions]

/-- What the application lists and counts from a position on agree, and both are those of the events
before any later position together with those from there on. -/
theorem trail_counted (built : store.Built) (app : App) (now : Timestamp) {start split : Nat}
    (h : start ≤ split) : ∃ trail counts rest restCounts,
    ((eventLog start).run.run (Store.answers now .sound) store).1 = .ok trail ∧
    ((app.counts start).run.run (Store.answers now .sound) store).1 = .ok counts ∧
    ((eventLog split).run.run (Store.answers now .sound) store).1 = .ok rest ∧
    ((app.counts split).run.run (Store.answers now .sound) store).1 = .ok restCounts ∧
    trail = (store.log.events.toList.filter (max start 1 ≤ ·.position)).map Event.entry ∧
    trail.map (·.position) =
      List.range' (max start 1) (store.log.lastPosition + 1 - max start 1) ∧
    Tallies app.gate.vocabulary trail counts ∧
    (app = standard → (∀ number, (EventKind.create.name, number) ∉ counts) ∧
      (counts.map Prod.snd).sum = trail.countP (·.kind ≠ .create)) ∧
    let before := trail.filter (·.position < max split 1)
    trail = before ++ rest ∧
    ∀ name, numberOf counts name =
      occurrences app.gate.vocabulary before name + numberOf restCounts name := by
  have pages := Store.pages now .sound
  have ordered := built.ordered
  have hcounts : ∀ position, ((app.counts position).run.run (Store.answers now .sound) store).1 =
      .ok (tally ((((store.log.events.toList.filter (max position 1 ≤ ·.position)).map
        Event.entry).map (·.kind.name)).filter app.gate.isGrounded)) := by
    intro position
    rw [run_counts app pages ordered, List.map_map]
    rfl
  have htallies := fun position => tallies_tally app
    ((store.log.events.toList.filter (max position 1 ≤ ·.position)).map Event.entry)
  have hsplit := congrArg (List.map Event.entry) (slice_split ordered h)
  refine ⟨_, _, _, _, run_eventLog pages ordered start, hcounts start,
    run_eventLog pages ordered split, hcounts split, rfl, ?_, htallies start, ?_, ?_, ?_⟩
  · rw [List.map_map]
    exact ordered.positions_from start
  · rintro rfl
    exact ⟨create_not_mem (htallies start), sum_tally_standard _⟩
  · rw [List.map_append] at hsplit
    rw [List.filter_map]
    exact hsplit
  · intro name
    rw [(htallies start).numberOf_eq, (htallies split).numberOf_eq, ← occurrences_append,
      List.filter_map]
    rw [List.map_append] at hsplit
    exact congrArg (occurrences _ · name) hsplit

/-- Of three events two are creations, and the third alone is counted. -/
theorem short_trail_counted : Feed.shortStore.Built ∧ 0 ≤ 3 ∧ ∃ trail counts rest,
    ((eventLog 0).run.run (Store.answers .epoch .sound) Feed.shortStore).1 = .ok trail ∧
    ((standard.counts 0).run.run (Store.answers .epoch .sound) Feed.shortStore).1 = .ok counts ∧
    ((eventLog 3).run.run (Store.answers .epoch .sound) Feed.shortStore).1 = .ok rest ∧
    trail = [⟨1, ⟨0⟩, 1, .create⟩, ⟨2, ⟨1⟩, 1, .create⟩, ⟨3, ⟨0⟩, 2, .kapp .zero⟩] ∧
    numberOf counts "zero" = 1 ∧ (counts.map Prod.snd).sum = 1 ∧
    trail = trail.filter (·.position < 3) ++ rest := by
  have built : Feed.shortStore.Built := .memory _
  have hle : 0 ≤ 3 := by decide
  obtain ⟨trail, counts, rest, _, htrail, hcounts, hrest, _, hentries, _, htallies, hstandard,
    hsplit, _⟩ := trail_counted built standard .epoch hle
  have hone : numberOf counts "zero" = 1 := by
    rw [htallies.numberOf_eq, hentries]
    decide
  have hsum : (counts.map Prod.snd).sum = 1 := by
    rw [(hstandard rfl).2, hentries]
    decide
  exact ⟨built, hle, trail, counts, rest, htrail, hcounts, hrest, hentries, hone, hsum, hsplit⟩

end App

end StackJournal
