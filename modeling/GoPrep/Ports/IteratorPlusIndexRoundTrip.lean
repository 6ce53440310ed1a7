import GoPrep.Ports.IndexRecordRead
import GoPrep.Ports.IteratorPlusIndexReplay

/-!
# What comes back of an inserted text

`Insert` writes any text between the space and the newline of its line, and
`Next` ends a line at its first newline.  So a text comes back up to its first
newline, and the rest of it is never read: the next line starts at an offset
of its own.

## Main results

* `shown_line_begins` — a stored line begins with the line a reader sees.
* `record_round_trip` — what `Next` answers for an id whose `Insert` was the
  last of that id to update the map before a `Query` traversed it.
* `newline_truncates` — a text with a newline.
-/

namespace GoPrep.Ports.IteratorPlusIndex

open GoPrep.Ports.IndexRecord
open GoPrep.Verified.ByteFile
open GoPrep.Verified.SortedMap
open GoPrep.Verified.ThreadTable
open GoPrep.Verified.Transition

/-! ## The text up to its first newline -/

/-- The record that a reader sees where `r` was stored. -/
def shown (r : Record) : Record :=
  ⟨r.id, r.text.takeWhile fun b => b != newline⟩

theorem newline_notMem_shown (r : Record) : newline ∉ (shown r).text := by
  intro hmem
  have hne := List.mem_takeWhile_imp hmem
  simp at hne

theorem takeWhile_newline_begins (text : Bytes) :
    (text.takeWhile fun b => b != newline) ++ [newline] <+:
      text ++ [newline] := by
  induction text with
  | nil => exact List.prefix_rfl
  | cons b rest ih =>
      by_cases hb : b = newline
      · subst hb
        rw [List.takeWhile_cons_of_neg (by simp)]
        exact ⟨rest ++ [newline], rfl⟩
      · rw [List.takeWhile_cons_of_pos (by simpa using hb)]
        exact (List.prefix_cons_inj b).mpr ih

/-- **A stored line begins with the line a reader sees.** -/
theorem shown_line_begins (r : Record) : (shown r).line <+: r.line := by
  rw [Record.line, Record.line, Record.body, Record.body, List.append_assoc,
    List.append_assoc _ r.text]
  exact (List.prefix_append_right_inj _).mpr (takeWhile_newline_begins r.text)

/-- A text comes back whole exactly if it has no newline. -/
theorem shown_eq_iff (r : Record) : shown r = r ↔ newline ∉ r.text := by
  constructor
  · intro heq
    rw [← heq]
    exact newline_notMem_shown r
  · intro hfree
    have htake : (r.text.takeWhile fun b => b != newline) = r.text := by
      rw [List.takeWhile_eq_self_iff]
      intro b hb
      simp only [bne_iff_ne, ne_eq]
      rintro rfl
      exact hfree hb
    rw [shown, htake]

/-! ## The offset of the last map update -/

/-- No other `Insert` of the id has updated the map since call `c` did. -/
def UpdatedLast (s : State) (c : Nat) (id : UInt64) : Prop :=
  ∀ before effect after, s.index.order = before ++ (c, effect) :: after →
    ∀ entry ∈ after, ∀ r offset, entry.2 = .inserted r offset → r.id ≠ id

/-- The entry of an id is the offset of the `Insert` that updated it last. -/
theorem ReplayInvariant.mem_indexMap_of_updatedLast {s : State}
    (h : ReplayInvariant s) {c : Nat} {r : Record} {offset : Nat}
    (hc : (c, .inserted r offset) ∈ s.index.order)
    (hlast : UpdatedLast s c r.id) :
    (r.id, offset) ∈ s.index.indexMap.entries := by
  obtain ⟨before, after, horder⟩ := List.append_of_mem hc
  have hupdates : mapUpdates s.index.order = mapUpdates before ++
      (c, (r, offset)) :: mapUpdates after := by
    rw [horder, mapUpdates_append]
    rfl
  rw [h.mem_indexMap, hupdates, List.map_append, List.map_cons]
  refine latest_append_cons (e := mapEntry (r, offset)) fun d hd => ?_
  obtain ⟨entry, hentry, rfl⟩ := List.mem_map.mp hd
  obtain ⟨⟨c', effect⟩, hmem, heq⟩ := List.mem_filterMap.mp hentry
  cases effect with
  | queried => cases heq
  | inserted r' offset' =>
      obtain rfl := Option.some.inj heq
      exact hlast before _ after horder _ hmem r' offset' rfl

/-- A query collects the offset of each id it selects. -/
theorem ReplayInvariant.getElem?_collect {s : State} (h : ReplayInvariant s)
    {id minId : UInt64} {offset k : Nat} {limit : Int}
    (hentry : (id, offset) ∈ s.index.indexMap.entries)
    (hk : (((s.index.indexMap.upperBound minId).take limit.toNat).map
      Prod.fst)[k]? = some id) :
    (s.index.collect minId limit)[k]? = some offset := by
  rw [List.getElem?_map, Option.map_eq_some_iff] at hk
  obtain ⟨e, he, rfl⟩ := hk
  have hmem := (OrderedMap.mem_upperBound.mp
    (List.mem_of_mem_take (List.mem_of_getElem? he))).1
  have hsame : some e.2 = some offset := by
    rw [← h.mem_indexMap.mp hmem, h.mem_indexMap.mp hentry]
  rw [Index.collect, Index.traverse_eq, Int.sub_zero, List.getElem?_map, he,
    Option.map_some, hsame]

/-! ## The iterator of a query -/

/-- The offsets of a `Query` that has traversed the map. -/
def Call.collected : Call → Option (List Nat)
  | .query _ _ (.leave fileOffsets) => some fileOffsets
  | .query _ _ (.leaving fileOffsets) => some fileOffsets
  | .query _ _ (.returned _ iter) => some iter.fileOffsets
  | _ => none

theorem Moves.collected {x y : Index} {c : Nat} {old new : Call}
    {notify : Bool} (h : Moves x c old new y notify) {fileOffsets : List Nat}
    (hold : old.collected = some fileOffsets) :
    new.collected = some fileOffsets := by
  cases h with
  | queryLeaves | queryLeft | closesIterator => exact hold
  | nexts minId limit admitted iter _ =>
      rw [Call.collected, Iterator.fileOffsets_next]
      exact hold
  | preads minId limit admitted iter reading n _ _ _ =>
      rw [Call.collected, Iterator.fileOffsets_readChunk]
      exact hold
  | _ => cases hold

theorem Step.collected {s t : State} {a : Action} (h : Step s a t) {q : Nat}
    {fileOffsets : List Nat}
    (hq : (s.calls.map Call.collected)[q]? = some (some fileOffsets)) :
    (t.calls.map Call.collected)[q]? = some (some fileOffsets) :=
  h.persists Call.collected (fun call => call.wake_eq Call.collected rfl)
    (fun hmove hold => hmove.collected hold) (fun _ _ _ _ => rfl) hq

/-- A `Query` that traverses the map keeps what it collects there. -/
theorem collected_of_traverses {s t : State} {q : Nat} {minId : UInt64}
    {limit : Int}
    (hq : s.calls[q]? = some (.query minId limit .traversing))
    (hstep : Step s (.move q) t) :
    (t.calls.map Call.collected)[q]? =
      some (some (s.index.collect minId limit)) := by
  cases hstep with
  | move _ old new x notify hold hmove _ =>
      obtain rfl := Option.some.inj (hq.symm.trans hold)
      cases hmove with
      | traverses =>
          show ((s.calls.set q _).map Call.collected)[q]? = _
          rw [List.getElem?_map,
            List.getElem?_set_self (lt_length_of_getElem? hq)]
          rfl

/-- A stored line reads back as the record shown of it, in every later
file. -/
theorem LogInvariant.readRecordAt_landed {s : State} (h : LogInvariant s)
    {c : Nat} {r : Record} {offset : Nat}
    (hc : (s.calls.map Call.landed)[c]? = some (some (r, offset)))
    {files : Nat → Bytes}
    (hfiles : ∀ n, ∃ t, Reaches Step s t ∧ files n = t.index.file)
    (sizes : Nat → ReadSize) (it : Iterator) {fuel : Nat}
    (hfuel : r.line.length + 2 ≤ fuel) :
    Iterator.readRecordAt files sizes fuel 0 (it.readingAt offset) =
      some (it.answer (.record (shown r))) := by
  rw [← parseLine_body]
  have hlines : ∀ n, (shown r).line <+: (files n).drop offset := by
    intro n
    obtain ⟨t, ht, hfile⟩ := hfiles n
    have hinv := ht.invariant (fun _ _ _ h hstep => h.step hstep) h
    have hlanded := ht.invariant (fun _ _ _ h hstep => hstep.landed h) hc
    obtain ⟨call, hcall, hcl⟩ :=
      List.mem_map.mp (List.mem_of_getElem? hlanded)
    have hstart := hinv.landed call hcall r offset hcl
    rw [hfile]
    exact (shown_line_begins r).trans (hstart.line_at hinv.content)
  refine readRecordAt_line hlines
    (newline_notMem_body (newline_notMem_shown r)) sizes it ?_
  have hle := (shown_line_begins r).length_le
  rw [Record.line, List.length_append] at hle
  omega

/-- An `Insert` that runs on its own. -/
theorem reaches_inserted (id : UInt64) (text : Bytes) :
    ∃ history, Reaches Step .initial
      { index := ((Index.initial.enter.append 0 ⟨id, text⟩).update 0
          ⟨id, text⟩ 0).leave
        calls := [.insert id text (.returned (.inserted 0))]
        history := history } := by
  have hbegun : Step .initial (.insert id text) _ := .insert _ _ _
  have happended := ((((Reaches.single hbegun).tail
    (.move _ 0 _ _ _ _ rfl (.insertEnters _ _) rfl)).tail
    (.move _ 0 _ _ _ _ rfl (.insertAdmitted _ _ rfl) rfl)).tail
    (.move _ 0 _ _ _ _ rfl (.insertLocksFile _ _) rfl)).tail
    (.move _ 0 _ _ _ _ rfl (.appends _ _) rfl)
  have hleft := (((happended.tail
    (.move _ 0 _ _ _ _ rfl (.insertLocksMap _ _ _) rfl)).tail
    (.move _ 0 _ _ _ _ rfl (.updates _ _ _) rfl)).tail
    (.move _ 0 _ _ _ _ rfl (.insertLeaves _ _ _) rfl)).tail
    (.move _ 0 _ _ _ _ rfl (.insertLeft _ _ _) rfl)
  exact ⟨_, hleft⟩

/-- **Round trip.**  In every interleaving, when an `Insert` has returned 0
and a `Query` then traverses the map, no other `Insert` of the id having
updated it since: the `Next` with which the iterator comes to the id adds to its
answers, however its reads are cut and the file grows, the record of this id
with the text up to its first newline, which is the text itself exactly if it
has no newline. -/
theorem record_round_trip {s t u : State} (hs : Reaches Step .initial s)
    {c q k : Nat} {id : UInt64} {text : Bytes} {result : InsertResult}
    {minId : UInt64} {limit : Int} {iter : Iterator}
    (hc : s.calls[c]? = some (.insert id text (.returned result)))
    (hcode : result.code = 0) (hlast : UpdatedLast s c id)
    (hq : s.calls[q]? = some (.query minId limit .traversing))
    (ht : Step s (.move q) t) (hu : Reaches Step t u)
    (hk : (((s.index.indexMap.upperBound minId).take limit.toNat).map
      Prod.fst)[k]? = some id)
    (hiter : u.calls[q]? = some (.query minId limit (.returned true iter)))
    (hcursor : iter.cursor = k) (hopen : iter.closed = false) :
    (∀ (files : Nat → Bytes) (sizes : Nat → ReadSize) (fuel : Nat),
      (∀ n, ∃ v, Reaches Step u v ∧ files n = v.index.file) →
      (Record.mk id text).line.length + 2 ≤ fuel →
      iter.nextRecord files sizes fuel =
        some { iter with
          cursor := k + 1
          reading := none
          results := iter.results ++ [.record (shown ⟨id, text⟩)] }) ∧
    (shown ⟨id, text⟩ = ⟨id, text⟩ ↔ newline ∉ text) := by
  obtain ⟨offset, rfl⟩ : ∃ offset, result = .inserted offset := by
    cases result with
    | rejected => cases hcode
    | failed => cases hcode
    | inserted offset => exact ⟨offset, rfl⟩
  have hinv := hs.invariant (fun _ _ _ h hstep => h.step hstep)
    replayInvariant_initial
  have heffect : (c, .inserted ⟨id, text⟩ offset) ∈ s.index.order := by
    rw [hinv.order.effects.mem_iff, List.getElem?_map, hc]
    rfl
  have hoffset := hinv.getElem?_collect
    (hinv.mem_indexMap_of_updatedLast heffect hlast) hk
  have htu : Reaches Step s u := .head ht hu
  have hcollected := hu.invariant (fun _ _ _ h hstep => hstep.collected h)
    (collected_of_traverses hq ht)
  rw [List.getElem?_map, hiter, Option.map_some, Call.collected,
    Option.some.injEq, Option.some.injEq] at hcollected
  have hlanded : (s.calls.map Call.landed)[c]? =
      some (some (⟨id, text⟩, offset)) := by
    rw [List.getElem?_map, hc]
    rfl
  refine ⟨fun files sizes fuel hfiles hfuel => ?_, shown_eq_iff _⟩
  rw [← hcollected, ← hcursor] at hoffset
  rw [Iterator.nextRecord, next_eq_readingAt hopen hoffset, hcursor]
  refine hinv.log.readRecordAt_landed hlanded (fun n => ?_) sizes _ hfuel
  obtain ⟨v, hv, hfile⟩ := hfiles n
  exact ⟨v, htu.trans hv, hfile⟩

/-- A text with a space, read one byte at a time. -/
theorem record_round_trip_space :
    ∃ u iter, Reaches Step .initial u ∧
      u.calls = [.insert 5 [97, 32, 98] (.returned (.inserted 0)),
        .query 0 10 (.returned true iter)] ∧
      iter.nextRecord (fun _ => u.index.file) (fun _ => ⟨1, by decide⟩) 8 =
        some { iter with
          cursor := 1
          results := [.record ⟨5, [97, 32, 98]⟩] } := by
  obtain ⟨history, hinserted⟩ := reaches_inserted 5 [97, 32, 98]
  have hs := (((hinserted.tail (.query _ 0 10)).tail
    (.move _ 1 _ _ _ _ rfl (.queryEnters _ _) rfl)).tail
    (.move _ 1 _ _ _ _ rfl (.queryAdmitted _ _ rfl) rfl)).tail
    (.move _ 1 _ _ _ _ rfl (.queryLocksMap _ _) rfl)
  have hu := ((hs.tail
    (.move _ 1 _ _ _ _ rfl (.traverses _ _) rfl)).tail
    (.move _ 1 _ _ _ _ rfl (.queryLeaves _ _ _) rfl)).tail
    (.move _ 1 _ _ _ _ rfl (.queryLeft _ _ _) rfl)
  refine ⟨_, _, hu, rfl, ?_⟩
  refine (record_round_trip hs (c := 0) (q := 1) rfl rfl ?_ rfl
    (.move _ 1 _ _ _ _ rfl (.traverses _ _) rfl)
    ((Reaches.single (.move _ 1 _ _ _ _ rfl (.queryLeaves _ _ _) rfl)).tail
      (.move _ 1 _ _ _ _ rfl (.queryLeft _ _ _) rfl))
    rfl rfl rfl rfl).1 _ _ _ (fun _ => ⟨_, .refl, rfl⟩) (by decide)
  -- one map update, and none after it
  intro before effect after horder entry hentry
  have hlength : 1 = (before ++ (0, effect) :: after).length :=
    congrArg List.length horder
  rw [List.length_append, List.length_cons] at hlength
  obtain rfl : after = [] := List.eq_nil_of_length_eq_zero (by omega)
  cases hentry

/-- `Insert(5, "a\nb")` returns 0, and the record read for it is `(5, "a")`. -/
theorem newline_truncates :
    ∃ s iter, Reaches Step .initial s ∧
      s.calls = [.insert 5 [97, newline, 98] (.returned (.inserted 0)),
        .query 0 10 (.returned true iter)] ∧
      InsertResult.code (.inserted 0) = 0 ∧
      iter.results = [.record ⟨5, [97]⟩] ∧
      Record.mk 5 [97] ≠ ⟨5, [97, newline, 98]⟩ := by
  obtain ⟨history, hinserted⟩ := reaches_inserted 5 [97, newline, 98]
  have hqueried := ((((((hinserted.tail (.query _ 0 10)).tail
    (.move _ 1 _ _ _ _ rfl (.queryEnters _ _) rfl)).tail
    (.move _ 1 _ _ _ _ rfl (.queryAdmitted _ _ rfl) rfl)).tail
    (.move _ 1 _ _ _ _ rfl (.queryLocksMap _ _) rfl)).tail
    (.move _ 1 _ _ _ _ rfl (.traverses _ _) rfl)).tail
    (.move _ 1 _ _ _ _ rfl (.queryLeaves _ _ _) rfl)).tail
    (.move _ 1 _ _ _ _ rfl (.queryLeft _ _ _) rfl)
  have hread := (hqueried.tail
    (.move _ 1 _ _ _ _ rfl (.nexts _ _ _ _ rfl) rfl)).tail
    (.move _ 1 _ _ _ _ rfl
      (.preads _ _ _ _ _ 256 rfl (by decide) (by decide)) rfl)
  exact ⟨_, _, hread, rfl, rfl, rfl, by decide⟩

end GoPrep.Ports.IteratorPlusIndex
