import GoPrep.Ports.IteratorPlusIndexOrder
import GoPrep.Verified.Replay

/-!
# The index against a replay of the file

An `Insert` appends under `writeMu` and updates the map under `idxMu`, and two
`Insert`s of one id may pass the two in different orders.  The entry of an id
follows the order of the map updates; a replay of the file from start to end
follows the order of the appends.

## Main results

* `ReplayInvariant.step` — the appends and the map updates list the same
  `Insert`s, up to those between the two, each with the offset of its record.
* `NewestInvariant.step` — as long as no map update goes back in the file,
  every entry is the newest.
* `followsUpdates_of_settled` — with no `Insert` between its append and its map
  update the entry of an id is the one updated last.
* `indexMap_eq_replay_of_updatesForward` — and the index is the replay of the
  file if no map update went back.
-/

namespace GoPrep.Ports.IteratorPlusIndex

open GoPrep.Ports.IndexRecord
open GoPrep.Verified
open GoPrep.Verified.RealTime
open GoPrep.Verified.SortedMap
open GoPrep.Verified.ThreadTable
open GoPrep.Verified.Transition

/-! ## Replaying the file -/

/-- How much of the file a record takes. -/
def lineSize (r : Record) : Nat := r.line.length

/-- What the map keeps of a record at an offset. -/
def mapEntry (p : Record × Nat) : UInt64 × Nat := Replay.mapEntry Record.id p

/-- Reading the file from start to end, each line assigning its offset to its
id. -/
def replay (records : List Record) : OrderedMap UInt64 Nat :=
  Replay.replay Record.id lineSize 0 records

/-- The calls in the log, with their records and offsets. -/
def landings (log : List (Nat × Record)) : List (Nat × (Record × Nat)) :=
  Replay.landings lineSize 0 log

theorem length_encodeAll (records : List Record) :
    (encodeAll records).length = (records.map lineSize).sum :=
  List.length_flatMap

theorem landings_concat (log : List (Nat × Record)) (c : Nat) (r : Record) :
    landings (log ++ [(c, r)]) = landings log ++
      [(c, (r, (encodeAll (log.map Prod.snd)).length))] := by
  rw [length_encodeAll, ← Nat.zero_add (List.sum _)]
  exact Replay.landings_concat 0 log c r

/-! ## The map updates -/

def Effect.insertion : Effect → Option (Record × Nat)
  | .inserted r offset => some (r, offset)
  | .queried => none

/-- The calls that have updated the map, in this order, with their records and
offsets. -/
def mapUpdates (order : List (Nat × Effect)) : List (Nat × (Record × Nat)) :=
  order.filterMap fun entry =>
    entry.2.insertion.map fun p => (entry.1, p)

/-- The record and offset of an `Insert` that has updated the map. -/
def Call.updated (call : Call) : Option (Record × Nat) :=
  call.effect.bind Effect.insertion

@[simp] theorem mapUpdates_append (order order' : List (Nat × Effect)) :
    mapUpdates (order ++ order') = mapUpdates order ++ mapUpdates order' :=
  List.filterMap_append

/-- The `Insert` is between its append and its map update. -/
def Call.unpublished : Call → Bool
  | .insert _ _ (.update _) => true
  | .insert _ _ (.updating _) => true
  | _ => false

/-- No `Insert` is between its append and its map update; in particular this
is so when none is in flight. -/
def Settled (s : State) : Prop :=
  ∀ call ∈ s.calls, call.unpublished = false

theorem Call.updated_eq_landed {call : Call}
    (h : call.unpublished = false) : call.updated = call.landed := by
  match call with
  | .insert _ _ .enter | .insert _ _ .entering | .insert _ _ .append
  | .insert _ _ .appending => rfl
  | .insert _ _ (.update _) | .insert _ _ (.updating _) => cases h
  | .insert _ _ (.leave result) => cases result <;> rfl
  | .insert _ _ (.leaving result) => cases result <;> rfl
  | .insert _ _ (.returned result) => cases result <;> rfl
  | .query _ _ .enter | .query _ _ .entering | .query _ _ .traverse
  | .query _ _ .traversing | .query _ _ (.leave _)
  | .query _ _ (.leaving _) => rfl
  | .query _ _ (.returned admitted _) => cases admitted <;> rfl
  | .close _ => rfl

/-! ## The invariant -/

structure ReplayInvariant (s : State) : Prop where
  log : LogInvariant s
  order : OrderInvariant s
  landed : Records Call.landed s.calls (landings s.index.log)
  indexMap : s.index.indexMap =
    ofLog ((mapUpdates s.index.order).map fun entry => mapEntry entry.2)

theorem replayInvariant_initial : ReplayInvariant .initial where
  log := logInvariant_initial
  order := orderInvariant_initial
  landed := .nil _
  indexMap := rfl

namespace Moves

variable {x y : Index} {c : Nat} {old new : Call} {notify : Bool}

/-- Only a complete `pwrite` gives a call an offset. -/
theorem landed_cases (h : Moves x c old new y notify) :
    (y.log = x.log ∧ new.landed = old.landed) ∨
    ∃ r, old.landed = none ∧ new.landed = some (r, x.writeOffset) ∧
      y.log = x.log ++ [(c, r)] := by
  cases h with
  | appends id text => exact .inr ⟨_, rfl, rfl, rfl⟩
  | insertLeaves id text result =>
      cases result <;> exact .inl ⟨rfl, rfl⟩
  | insertLeft id text result => cases result <;> exact .inl ⟨rfl, rfl⟩
  | _ => exact .inl ⟨rfl, rfl⟩

/-- Only `indexMap[id] = offset` changes the map. -/
theorem update_cases (h : Moves x c old new y notify) :
    (y.indexMap = x.indexMap ∧ mapUpdates y.order = mapUpdates x.order) ∨
    ∃ id text offset, old = .insert id text (.updating offset) ∧
      y.indexMap = x.indexMap.insert id offset ∧
      mapUpdates y.order = mapUpdates x.order ++
        [(c, (⟨id, text⟩, offset))] := by
  cases h with
  | updates id text offset =>
      exact .inr ⟨id, text, offset, rfl, rfl, mapUpdates_append _ _⟩
  | traverses minId limit =>
      refine .inl ⟨rfl, ?_⟩
      show mapUpdates (x.order ++ [(c, .queried)]) = mapUpdates x.order
      rw [mapUpdates_append]
      exact List.append_nil _
  | _ => exact .inl ⟨rfl, rfl⟩

end Moves

namespace ReplayInvariant

variable {s : State}

/-- **Every step preserves the invariant.** -/
theorem step (h : ReplayInvariant s) {a : Action} {t : State}
    (hstep : Step s a t) : ReplayInvariant t := by
  refine ⟨h.log.step hstep, h.order.step hstep, ?_, ?_⟩
  · cases hstep with
    | insert id text => exact h.landed.concat rfl
    | query minId limit => exact h.landed.concat rfl
    | close => exact h.landed.concat rfl
    | wakeSpuriously c call hc => exact h.landed.set hc _ call.landed_wake
    | preadFails c minId limit admitted iter hc _ =>
        exact h.landed.set hc _ rfl
    | move c old new x notify hc hmove _ =>
        have hmoved : Records Call.landed (s.calls.set c new)
            (landings x.log) := by
          rcases hmove.landed_cases with ⟨hlog, hsame⟩ |
            ⟨r, hnone, hsome, hlog⟩
          · rw [hlog]
            exact h.landed.set hc new hsame
          · rw [h.log.length_eq] at hsome
            rw [hlog, landings_concat]
            exact h.landed.set_concat hc hnone hsome
        exact hmoved.congr (map_ite_map_of_eq _ Call.landed_wake notify _)
  · cases hstep with
    | move c old new x notify hc hmove _ =>
        rcases hmove.update_cases with ⟨hmap, horder⟩ |
          ⟨id, text, offset, -, hmap, horder⟩
        · show x.indexMap = _
          rw [hmap, horder]
          exact h.indexMap
        · show x.indexMap = _
          rw [hmap, horder, List.map_append, List.map_singleton, ofLog_concat,
            ← h.indexMap]
          rfl
    | _ => exact h.indexMap

theorem updated (h : ReplayInvariant s) :
    Records Call.updated s.calls (mapUpdates s.index.order) :=
  h.order.effects.filterMap Effect.insertion

/-- Once all offsets are published, the map updates list the `Insert`s of the
log. -/
theorem updated_of_settled (h : ReplayInvariant s) (hs : Settled s) :
    Records Call.landed s.calls (mapUpdates s.index.order) :=
  h.updated.congr (List.map_congr_left fun call hcall =>
    (Call.updated_eq_landed (hs call hcall)).symm)

theorem mem_indexMap (h : ReplayInvariant s) {id : UInt64} {offset : Nat} :
    (id, offset) ∈ s.index.indexMap.entries ↔
      latest ((mapUpdates s.index.order).map fun entry => mapEntry entry.2)
        id = some offset := by
  rw [h.indexMap, mem_ofLog]

end ReplayInvariant

/-! ## Updates in the order of the file -/

/-- A map update replaces the offset of an earlier record only. -/
def UpdatesForward (s : State) : Action → Prop
  | .move c => ∀ id text offset,
      s.calls[c]? = some (.insert id text (.updating offset)) →
      ∀ older, (id, older) ∈ s.index.indexMap.entries → older < offset
  | _ => True

/-- No map update lies further in the file than the entry of its id. -/
structure NewestInvariant (s : State) : Prop extends ReplayInvariant s where
  newest : Replay.Newest
    ((mapUpdates s.index.order).map fun entry => mapEntry entry.2)

theorem newestInvariant_initial : NewestInvariant .initial where
  toReplayInvariant := replayInvariant_initial
  newest := .nil

namespace NewestInvariant

variable {s : State}

/-- **A step that does not update backwards preserves the invariant.** -/
theorem step (h : NewestInvariant s) {a : Action} {t : State}
    (hforward : UpdatesForward s a) (hstep : Step s a t) :
    NewestInvariant t := by
  refine ⟨h.toReplayInvariant.step hstep, ?_⟩
  cases hstep with
  | move c old new x notify hc hmove _ =>
      show Replay.Newest ((mapUpdates x.order).map _)
      rcases hmove.update_cases with ⟨-, horder⟩ |
        ⟨id, text, offset, rfl, -, horder⟩
      · rw [horder]
        exact h.newest
      · rw [horder, List.map_append, List.map_singleton]
        refine h.newest.concat fun older hmem => ?_
        rw [← h.indexMap] at hmem
        exact hforward id text offset hc older hmem
  | _ => exact h.newest

/-- **The entry of an id is its greatest offset**, which is what a replay of
the file assigns last. -/
theorem indexMap_eq_replay (h : NewestInvariant s) (hs : Settled s) :
    s.index.indexMap = replay s.index.records :=
  h.indexMap.trans (h.newest.ofLog_eq_replay (fun r => by
    simp [lineSize, Record.line]) h.landed (h.updated_of_settled hs))

end NewestInvariant

/-- What the index holds when every offset is published. -/
structure FollowsUpdates (s : State) : Prop where
  /-- The entry of an id is the offset of its last map update. -/
  entry : ∀ id offset, (id, offset) ∈ s.index.indexMap.entries ↔
    latest ((mapUpdates s.index.order).map fun entry => mapEntry entry.2)
      id = some offset
  /-- The map updates are those of the `Insert`s that have appended. -/
  updates : Records Call.landed s.calls (mapUpdates s.index.order)
  /-- In the order of the appends, their lines lie at their offsets. -/
  appends : Records Call.landed s.calls (landings s.index.log)

/-- In every reachable state without an `Insert` between its append and its map
update, the entry of every id is the offset of its last map update. -/
theorem followsUpdates_of_settled {s : State} (hs : Reaches Step .initial s)
    (hsettled : Settled s) : FollowsUpdates s := by
  have hinv := hs.invariant (fun _ _ _ h hstep => h.step hstep)
    replayInvariant_initial
  exact ⟨fun _ _ => hinv.mem_indexMap, hinv.updated_of_settled hsettled,
    hinv.landed⟩

/-- Along every run in which no map update goes back in the file, the index of
every such state is the replay of the file. -/
theorem indexMap_eq_replay_of_updatesForward {run : List (Action × State)}
    (hrun : IsRun Step .initial run)
    (hforward : StepsAll UpdatesForward .initial run) :
    StatesAll (fun s => Settled s → s.index.indexMap = replay s.index.records)
      run := by
  intro entry hentry
  have hnewest := statesAll_of_stepsAll
    (fun _ _ _ h hforward hstep => h.step hforward hstep) hrun
    newestInvariant_initial hforward
  exact (hnewest entry hentry).indexMap_eq_replay

end GoPrep.Ports.IteratorPlusIndex
