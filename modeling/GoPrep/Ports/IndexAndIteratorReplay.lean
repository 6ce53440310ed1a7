import GoPrep.Ports.IndexAndIteratorTable
import GoPrep.Ports.IteratorPlusIndexReplay

/-!
# The tab-separated index against a replay of its file

`insert` appends under `fileMutex` and updates the map under `mapMutex`, as the
`Insert` of `src/iterator_plus_index.cpp` does under its two mutexes, and two
`insert`s of one id may pass the two blocks in different orders.  A replay
starts behind the lines that were there when the file was opened, which the
index does not read.

## Main results

* `ReplayInvariant.step` — the map is what its updates assign.
* `NewestInvariant.step` — as long as no map update goes back in the file,
  every entry is the newest.
* `index_follows_updates` — in both indexes, with no insert between its append
  and its map update, the entry of an id is the one updated last, and the index
  is the replay of the file if no map update went back.
* `replay_differs` — two inserts of one id that pass each other, in both.
-/

namespace GoPrep.Ports.IndexAndIterator

open GoPrep.Verified
open GoPrep.Verified.ByteFile
open GoPrep.Verified.Linearization
open GoPrep.Verified.SortedMap
open GoPrep.Verified.ThreadTable
open GoPrep.Verified.Transition

/-! ## The map updates -/

/-- What the map keeps of a record at an offset. -/
def mapEntry (p : Record × Nat) : UInt64 × Nat := Replay.mapEntry Record.id p

/-- Reading what stands behind `file` to the end, each line assigning its
offset to its id. -/
def replay (file : Bytes) (records : List Record) : OrderedMap UInt64 Nat :=
  Replay.replay Record.id lineSize file.length records

def Effect.insertion : Effect → Option (Record × Nat)
  | .inserted e => some (e.record, e.2.1)
  | .queried => none

/-- The calls that have updated the map, in this order, with their records and
offsets. -/
def mapUpdates (order : List (Nat × Effect)) : List (Nat × (Record × Nat)) :=
  order.filterMap fun entry =>
    entry.2.insertion.map fun p => (entry.1, p)

/-- The record and offset of an `insert` that has updated the map. -/
def Call.updated (call : Call) : Option (Record × Nat) :=
  call.effect.bind Effect.insertion

/-- The `insert` is between its two blocks, or about to update the map. -/
def Call.unpublished : Call → Bool
  | .insert _ _ (.lockingMap _) => true
  | .insert _ _ (.updating _) => true
  | _ => false

/-- No `insert` is between its append and its map update; in particular this
is so when none is in flight. -/
def Published (s : State) : Prop :=
  ∀ call ∈ s.calls, call.unpublished = false

theorem Call.updated_eq_landed {call : Call}
    (h : call.unpublished = false) : call.updated = call.landed := by
  match call with
  | .insert _ _ .lockingFile | .insert _ _ .telling
  | .insert _ _ (.writing _ _) | .insert _ _ (.returned _) => rfl
  | .insert _ _ (.lockingMap _) | .insert _ _ (.updating _) => cases h
  | .query _ _ .lockingMap | .query _ _ .traversing
  | .query _ _ (.opening _) | .query _ _ (.returned _ _) => rfl

/-- Only `idToOffsetMap[id] = currenOffset` changes the map. -/
theorem Moves.update_cases {x y : Index} {old new : Call}
    {effect : Option Effect} (h : Moves x old new y effect) (c : Nat)
    (order : List (Nat × Effect)) :
    (y.idToOffsetMap = x.idToOffsetMap ∧
      mapUpdates (order ++ (effect.map fun e => (c, e)).toList) =
        mapUpdates order) ∨
    ∃ id value offset, old = .insert id value (.updating offset) ∧
      y.idToOffsetMap = x.idToOffsetMap.insert id offset ∧
      mapUpdates (order ++ (effect.map fun e => (c, e)).toList) =
        mapUpdates order ++ [(c, (⟨id, value⟩, offset))] := by
  have hnone : mapUpdates (order ++ []) = mapUpdates order := by
    rw [List.append_nil]
  cases h with
  | updates id value offset =>
      exact .inr ⟨id, value, offset, rfl, rfl, List.filterMap_append⟩
  | traverses minId limit =>
      exact .inl ⟨rfl, List.filterMap_append.trans (List.append_nil _)⟩
  | _ => exact .inl ⟨rfl, hnone⟩

/-! ## The invariant -/

structure ReplayInvariant (file : Bytes) (s : State) : Prop where
  linearizes : s.Linearizes
  table : TableInvariant file s
  idToOffsetMap : s.index.idToOffsetMap =
    ofLog ((mapUpdates s.order).map fun entry => mapEntry entry.2)

theorem replayInvariant_initial {file : Option Bytes} {x : Index}
    (hnew : Index.new file = .ok x) :
    ReplayInvariant x.table (.initial x) where
  linearizes := .nil _ _
  table := tableInvariant_initial x
  idToOffsetMap := by
    cases file with
    | none => cases hnew
    | some file =>
        cases hnew
        rfl

namespace ReplayInvariant

variable {file : Bytes} {s t : State} {a : Action}

/-- **Every step preserves the invariant.** -/
theorem step (h : ReplayInvariant file s) (hstep : Step s a t) :
    ReplayInvariant file t := by
  refine ⟨hstep.linearizes h.linearizes, h.table.step hstep, ?_⟩
  cases hstep with
  | move c old new index effect hc hmove _ =>
      show index.idToOffsetMap = ofLog ((mapUpdates (s.order ++ _)).map _)
      rcases hmove.update_cases c s.order with ⟨hmap, horder⟩ |
        ⟨id, value, offset, -, hmap, horder⟩
      · rw [hmap, horder]
        exact h.idToOffsetMap
      · rw [hmap, horder, List.map_append, List.map_singleton, ofLog_concat,
          ← h.idToOffsetMap]
        rfl
  | _ => exact h.idToOffsetMap

/-- Once all offsets are published, the map updates list the `insert`s that
have appended. -/
theorem updates_of_published (h : ReplayInvariant file s)
    (hs : Published s) : Records Call.landed s.calls (mapUpdates s.order) := by
  have hupdated : Records Call.updated s.calls (mapUpdates s.order) :=
    h.linearizes.effects.filterMap Effect.insertion
  exact hupdated.congr (List.map_congr_left fun call hcall =>
    (Call.updated_eq_landed (hs call hcall)).symm)

end ReplayInvariant

/-- A map update replaces the offset of an earlier record only. -/
def UpdatesForward (s : State) : Action → Prop
  | .move c => ∀ id value offset,
      s.calls[c]? = some (.insert id value (.updating offset)) →
      ∀ older, (id, older) ∈ s.index.idToOffsetMap.entries → older < offset
  | _ => True

/-- No map update lies further in the file than the entry of its id. -/
structure NewestInvariant (file : Bytes) (s : State) : Prop
    extends ReplayInvariant file s where
  newest : Replay.Newest
    ((mapUpdates s.order).map fun entry => mapEntry entry.2)

/-- **A step that does not update backwards preserves the invariant.** -/
theorem NewestInvariant.step {file : Bytes} {s t : State} {a : Action}
    (h : NewestInvariant file s) (hforward : UpdatesForward s a)
    (hstep : Step s a t) : NewestInvariant file t := by
  refine ⟨h.toReplayInvariant.step hstep, ?_⟩
  cases hstep with
  | move c old new index effect hc hmove _ =>
      show Replay.Newest ((mapUpdates (s.order ++ _)).map _)
      rcases hmove.update_cases c s.order with ⟨-, horder⟩ |
        ⟨id, value, offset, rfl, -, horder⟩
      · rw [horder]
        exact h.newest
      · rw [horder, List.map_append, List.map_singleton]
        refine h.newest.concat fun older hmem => ?_
        rw [← h.idToOffsetMap] at hmem
        exact hforward id value offset hc older hmem
  | _ => exact h.newest

/-! ## What the index holds -/

/-- The log lists the `insert`s that have appended, in the order in which their
lines stand behind `file`. -/
structure Appended (file : Bytes) (s : State) (log : List (Nat × Record)) :
    Prop where
  landed : Records Call.landed s.calls (landings file log)
  /-- Behind them there is a part of a line only while one is written. -/
  table : ∃ part, s.index.table = file ++ wholeLines log ++ part ∧
    ((∀ call ∈ s.calls, call.writing = none) → part = [])

/-- What the index holds when every offset is published. -/
structure FollowsUpdates (file : Bytes) (s : State) : Prop where
  /-- The entry of an id is the offset of its last map update. -/
  entry : ∀ id offset, (id, offset) ∈ s.index.idToOffsetMap.entries ↔
    latest ((mapUpdates s.order).map fun entry => mapEntry entry.2) id =
      some offset
  /-- The map updates are those of the `insert`s that have appended. -/
  updates : Records Call.landed s.calls (mapUpdates s.order)
  appends : ∃ log, Appended file s log

/-- The index is the replay of what has been appended. -/
def ReplaysFile (file : Bytes) (s : State) : Prop :=
  ∃ log, Appended file s log ∧
    s.index.idToOffsetMap = replay file (log.map Prod.snd)

theorem TableInvariant.appended {file : Bytes} {s : State}
    (h : TableInvariant file s) : ∃ log, Appended file s log := by
  obtain ⟨log, part, hlines⟩ := h.lines
  refine ⟨log, hlines.landed, part, hlines.table, fun hnone => ?_⟩
  have hpart := hlines.partOf
  rwa [List.filterMap_eq_nil_iff.mpr hnone] at hpart

theorem ReplayInvariant.followsUpdates {file : Bytes} {s : State}
    (h : ReplayInvariant file s) (hs : Published s) :
    FollowsUpdates file s where
  entry := fun id offset => by rw [h.idToOffsetMap, mem_ofLog]
  updates := h.updates_of_published hs
  appends := h.table.appended

/-- **The entry of an id is its greatest offset**, which is what a replay of
the file assigns last. -/
theorem NewestInvariant.replaysFile {file : Bytes} {s : State}
    (h : NewestInvariant file s) (hs : Published s) : ReplaysFile file s := by
  obtain ⟨log, happended⟩ := h.table.appended
  have hsize : ∀ r, 0 < lineSize r := fun r => by
    simp [lineSize, Record.line]
  exact ⟨log, happended, h.idToOffsetMap.trans (h.newest.ofLog_eq_replay hsize
    happended.landed (h.updates_of_published hs))⟩

/-- **The index follows the map updates**, in `src/iterator_plus_index.cpp`
and in `src/index_and_iterator.cpp` over any file.  In every reachable state
without an insert between its append and its map update, the entry of every id
is the offset of the record whose insert updated the map last, of the
successful inserts of that id.  Along every run in which no map update replaces
the entry of its id by an earlier record of the file, the index of every such
state is the replay of the file from start to end. -/
theorem index_follows_updates :
    ((∀ s, Reaches IteratorPlusIndex.Step .initial s →
        IteratorPlusIndex.Settled s → IteratorPlusIndex.FollowsUpdates s) ∧
      ∀ run, IsRun IteratorPlusIndex.Step .initial run →
        StepsAll IteratorPlusIndex.UpdatesForward .initial run →
        StatesAll (fun s => IteratorPlusIndex.Settled s →
          s.index.indexMap = IteratorPlusIndex.replay s.index.records) run) ∧
    ∀ file x, Index.new file = .ok x →
      (∀ s, Reaches Step (.initial x) s → Published s →
        FollowsUpdates x.table s) ∧
      ∀ run, IsRun Step (.initial x) run →
        StepsAll UpdatesForward (.initial x) run →
        StatesAll (fun s => Published s → ReplaysFile x.table s) run := by
  refine ⟨⟨fun s => IteratorPlusIndex.followsUpdates_of_settled,
    fun run => IteratorPlusIndex.indexMap_eq_replay_of_updatesForward⟩, ?_⟩
  intro file x hnew
  constructor
  · intro s hs hpublished
    have hinv := hs.invariant (fun _ _ _ h hstep => h.step hstep)
      (replayInvariant_initial hnew)
    exact hinv.followsUpdates hpublished
  · intro run hrun hforward entry hentry
    have hinitial : NewestInvariant x.table (.initial x) :=
      ⟨replayInvariant_initial hnew, .nil⟩
    have hnewest := statesAll_of_stepsAll
      (fun _ _ _ h hforward hstep => NewestInvariant.step h hforward hstep)
      hrun hinitial hforward
    exact (hnewest entry hentry).replaysFile

/-- One insert into each: the index is the replay of the file once it has
updated the map. -/
theorem index_follows_updates_insert :
    (∃ run : List (IteratorPlusIndex.Action × IteratorPlusIndex.State),
      IsRun IteratorPlusIndex.Step .initial run ∧
      run.map (fun entry => entry.2.index.indexMap.entries) =
        [[], [], [], [], [], [], [(5, 0)]] ∧
      StatesAll (fun s => IteratorPlusIndex.Settled s →
        s.index.indexMap = IteratorPlusIndex.replay s.index.records) run) ∧
    ∃ run : List (Action × State),
      IsRun Step (.initial ⟨[49, 9, 10], .empty⟩) run ∧
      run.map (fun entry => entry.2.index.idToOffsetMap.entries) =
        [[], [], [], [], [], [], [(5, 3)]] ∧
      StatesAll (fun s => Published s → ReplaysFile [49, 9, 10] s) run := by
  constructor
  · have hrun : IsRun (α := IteratorPlusIndex.Action) IteratorPlusIndex.Step
        .initial [(_, _), (_, _), (_, _), (_, _), (_, _), (_, _), (_, _)] :=
      ⟨.insert _ 5 [97], .move _ 0 _ _ _ _ rfl (.insertEnters _ _) rfl,
        .move _ 0 _ _ _ _ rfl (.insertAdmitted _ _ rfl) rfl,
        .move _ 0 _ _ _ _ rfl (.insertLocksFile _ _) rfl,
        .move _ 0 _ _ _ _ rfl (.appends _ _) rfl,
        .move _ 0 _ _ _ _ rfl (.insertLocksMap _ _ _) rfl,
        .move _ 0 _ _ _ _ rfl (.updates _ _ _) rfl, trivial⟩
    refine ⟨_, hrun, rfl, index_follows_updates.1.2 _ hrun ?_⟩
    refine ⟨trivial, ?_, ?_, ?_, ?_, ?_, fun id text offset _ older hmem => ?_,
      trivial⟩
    · exact fun id text offset hc => by cases Option.some.inj hc
    · exact fun id text offset hc => by cases Option.some.inj hc
    · exact fun id text offset hc => by cases Option.some.inj hc
    · exact fun id text offset hc => by cases Option.some.inj hc
    · exact fun id text offset hc => by cases Option.some.inj hc
    · -- the map is empty before the update
      cases hmem
  · have hrun : IsRun (α := Action) Step (.initial ⟨[49, 9, 10], .empty⟩)
        [(_, _), (_, _), (_, _), (_, _), (_, _), (_, _), (_, _)] :=
      ⟨.insert _ 5 [97], .move _ 0 _ _ _ _ rfl (.locksFile _ _) (.inr rfl),
        .move _ 0 _ _ _ _ rfl (.tells _ _) (.inl rfl),
        .move _ 0 _ _ _ _ rfl (.puts 5 [97] 3 [53, 9, 97, 10] []) (.inl rfl),
        .move _ 0 _ _ _ _ rfl (.flushes _ _ _) (.inr rfl),
        .move _ 0 _ _ _ _ rfl (.locksMap _ _ _) (.inr rfl),
        .move _ 0 _ _ _ _ rfl (.updates _ _ _) (.inr rfl), trivial⟩
    have hnew : Index.new (some [49, 9, 10]) = .ok ⟨[49, 9, 10], .empty⟩ := rfl
    refine ⟨_, hrun, rfl, (index_follows_updates.2 _ _ hnew).2 _ hrun ?_⟩
    refine ⟨trivial, ?_, ?_, ?_, ?_, ?_, fun id value offset _ older hmem => ?_,
      trivial⟩
    · exact fun id value offset hc => by cases Option.some.inj hc
    · exact fun id value offset hc => by cases Option.some.inj hc
    · exact fun id value offset hc => by cases Option.some.inj hc
    · exact fun id value offset hc => by cases Option.some.inj hc
    · exact fun id value offset hc => by cases Option.some.inj hc
    · -- the map is empty before the update
      cases hmem

/-- Two inserts of one id that pass each other between append and map update,
in either index. -/
theorem replay_differs :
    (∃ s, Reaches IteratorPlusIndex.Step .initial s ∧
      s.calls = [.insert 5 [97] (.returned (.inserted 0)),
        .insert 5 [98] (.returned (.inserted 4))] ∧
      s.index.records = [⟨5, [97]⟩, ⟨5, [98]⟩] ∧
      s.index.indexMap.entries = [(5, 0)] ∧
      (IteratorPlusIndex.replay s.index.records).entries = [(5, 4)]) ∧
    ∃ x s, Index.new (some []) = .ok x ∧ Reaches Step (.initial x) s ∧
      s.calls = [.insert 5 [97] (.returned 0), .insert 5 [98] (.returned 4)] ∧
      s.index.table = wholeLines [(0, ⟨5, [97]⟩), (1, ⟨5, [98]⟩)] ∧
      s.index.idToOffsetMap.entries = [(5, 0)] ∧
      (replay [] [⟨5, [97]⟩, ⟨5, [98]⟩]).entries = [(5, 4)] := by
  constructor
  · have hbegun : IteratorPlusIndex.Step .initial (.insert 5 [97]) _ :=
      .insert _ _ _
    have hfirst := ((((Reaches.single hbegun).tail
      (.move _ 0 _ _ _ _ rfl (.insertEnters _ _) rfl)).tail
      (.move _ 0 _ _ _ _ rfl (.insertAdmitted _ _ rfl) rfl)).tail
      (.move _ 0 _ _ _ _ rfl (.insertLocksFile _ _) rfl)).tail
      (.move _ 0 _ _ _ _ rfl (.appends _ _) rfl)
    have hsecond := (((((hfirst.tail (.insert _ 5 [98])).tail
      (.move _ 1 _ _ _ _ rfl (.insertEnters _ _) rfl)).tail
      (.move _ 1 _ _ _ _ rfl (.insertAdmitted _ _ rfl) rfl)).tail
      (.move _ 1 _ _ _ _ rfl (.insertLocksFile _ _) rfl)).tail
      (.move _ 1 _ _ _ _ rfl (.appends _ _) rfl))
    have hleft := (((hsecond.tail
      (.move _ 1 _ _ _ _ rfl (.insertLocksMap _ _ _) rfl)).tail
      (.move _ 1 _ _ _ _ rfl (.updates _ _ _) rfl)).tail
      (.move _ 1 _ _ _ _ rfl (.insertLeaves _ _ _) rfl)).tail
      (.move _ 1 _ _ _ _ rfl (.insertLeft _ _ _) rfl)
    have hpassed := (((hleft.tail
      (.move _ 0 _ _ _ _ rfl (.insertLocksMap _ _ _) rfl)).tail
      (.move _ 0 _ _ _ _ rfl (.updates _ _ _) rfl)).tail
      (.move _ 0 _ _ _ _ rfl (.insertLeaves _ _ _) rfl)).tail
      (.move _ 0 _ _ _ _ rfl (.insertLeft _ _ _) rfl)
    exact ⟨_, hpassed, rfl, rfl, rfl, rfl⟩
  · have hbegun : Step (.initial ⟨[], .empty⟩) (.insert 5 [97]) _ :=
      .insert _ _ _
    have hfirst := ((((Reaches.single hbegun).tail
      (.move _ 0 _ _ _ _ rfl (.locksFile _ _) (.inr rfl))).tail
      (.move _ 0 _ _ _ _ rfl (.tells _ _) (.inl rfl))).tail
      (.move _ 0 _ _ _ _ rfl (.puts 5 [97] 0 [53, 9, 97, 10] [])
        (.inl rfl))).tail
      (.move _ 0 _ _ _ _ rfl (.flushes _ _ _) (.inr rfl))
    have hsecond := ((((hfirst.tail (.insert _ 5 [98])).tail
      (.move _ 1 _ _ _ _ rfl (.locksFile _ _) (.inr rfl))).tail
      (.move _ 1 _ _ _ _ rfl (.tells _ _) (.inl rfl))).tail
      (.move _ 1 _ _ _ _ rfl (.puts 5 [98] 4 [53, 9, 98, 10] [])
        (.inl rfl))).tail
      (.move _ 1 _ _ _ _ rfl (.flushes _ _ _) (.inr rfl))
    have hpassed := (((hsecond.tail
      (.move _ 1 _ _ _ _ rfl (.locksMap _ _ _) (.inr rfl))).tail
      (.move _ 1 _ _ _ _ rfl (.updates _ _ _) (.inr rfl))).tail
      (.move _ 0 _ _ _ _ rfl (.locksMap _ _ _) (.inr rfl))).tail
      (.move _ 0 _ _ _ _ rfl (.updates _ _ _) (.inr rfl))
    exact ⟨_, _, rfl, hpassed, rfl, rfl, rfl, rfl⟩

end GoPrep.Ports.IndexAndIterator
