import GoPrep.Ports.IteratorPlusIndex

/-!
# The file is the log of the successful appends

Below `writeOffset` the file is the concatenation of the lines whose `pwrite`
was complete, in the order of the appends; what a short `pwrite` leaves lies
above it.  Every offset that an `Insert` has learnt, and so every offset in
`indexMap`, is the start of the line of its own record.

## Main results

* `LogInvariant.step` — the invariant of all interleavings and all outcomes
  of `pwrite`.
* `log_matches_file` — the representation invariant in every reachable
  state, and that an `Insert` which returns nonzero has changed none of it.
-/

namespace GoPrep.Ports.IteratorPlusIndex

open GoPrep.Ports.IndexRecord
open GoPrep.Verified.ByteFile
open GoPrep.Verified.RealTime
open GoPrep.Verified.SortedMap
open GoPrep.Verified.ThreadTable
open GoPrep.Verified.Transition

/-! ## Concatenated lines -/

/-- The lines of the records, one after the other. -/
def encodeAll (records : List Record) : Bytes :=
  records.flatMap Record.line

@[simp] theorem encodeAll_append (rs rs' : List Record) :
    encodeAll (rs ++ rs') = encodeAll rs ++ encodeAll rs' :=
  List.flatMap_append

/-- `offset` is where the line of `r`, as one of `records`, starts. -/
def StartsAt (records : List Record) (offset : Nat) (r : Record) : Prop :=
  ∃ before after, records = before ++ r :: after ∧
    offset = (encodeAll before).length

namespace StartsAt

variable {records : List Record} {offset : Nat} {r : Record}

theorem append (h : StartsAt records offset r) (more : List Record) :
    StartsAt (records ++ more) offset r := by
  obtain ⟨before, after, rfl, hoffset⟩ := h
  exact ⟨before, after ++ more, by simp, hoffset⟩

theorem last (records : List Record) (r : Record) :
    StartsAt (records ++ [r]) (encodeAll records).length r :=
  ⟨records, [], rfl, rfl⟩

/-- The file shows the line at its offset. -/
theorem line_at (h : StartsAt records offset r) {file : Bytes} {n : Nat}
    (hfile : file.take n = encodeAll records) :
    r.line <+: file.drop offset := by
  obtain ⟨before, after, rfl, rfl⟩ := h
  refine ⟨encodeAll after ++ file.drop n, ?_⟩
  have hsplit := List.take_append_drop n file
  rw [hfile, encodeAll_append] at hsplit
  have hdrop : file.drop (encodeAll before).length =
      encodeAll (r :: after) ++ file.drop n := by
    conv_lhs => rw [← hsplit, List.append_assoc, List.drop_left]
  rw [hdrop, ← List.append_assoc]
  rfl

end StartsAt

/-! ## The invariant -/

/-- The record of an `Insert` that has appended, with the offset it learnt. -/
def Call.landed : Call → Option (Record × Nat)
  | .insert id text (.update offset) => some (⟨id, text⟩, offset)
  | .insert id text (.updating offset) => some (⟨id, text⟩, offset)
  | .insert id text (.leave (.inserted offset)) => some (⟨id, text⟩, offset)
  | .insert id text (.leaving (.inserted offset)) =>
      some (⟨id, text⟩, offset)
  | .insert id text (.returned (.inserted offset)) =>
      some (⟨id, text⟩, offset)
  | _ => none

/-- The record of an `Insert` whose append has succeeded. -/
def Call.appended (call : Call) : Option Record := call.landed.map Prod.fst

def Index.records (x : Index) : List Record := x.log.map Prod.snd

structure LogInvariant (s : State) : Prop where
  content : s.index.file.take s.index.writeOffset = encodeAll s.index.records
  length_eq : s.index.writeOffset = (encodeAll s.index.records).length
  appended : Records Call.appended s.calls s.index.log
  landed : ∀ call ∈ s.calls, ∀ r offset, call.landed = some (r, offset) →
    StartsAt s.index.records offset r
  indexMap : ∀ e ∈ s.index.indexMap.entries, ∃ text,
    StartsAt s.index.records e.2 ⟨e.1, text⟩

theorem logInvariant_initial : LogInvariant .initial where
  content := rfl
  length_eq := rfl
  appended := .nil _
  landed := by simp [State.initial]
  indexMap := by simp [State.initial, Index.initial, OrderedMap.empty]

@[simp] theorem Call.landed_wake (call : Call) :
    call.wake.landed = call.landed :=
  call.wake_eq Call.landed rfl

namespace LogInvariant

variable {s : State}

theorem writeOffset_le (h : LogInvariant s) :
    s.index.writeOffset ≤ s.index.file.length := by
  have hlength := congrArg List.length h.content
  rw [List.length_take, ← h.length_eq] at hlength
  omega

/-- **What a move does to the index keeps the log in the file.** -/
theorem moves (h : LogInvariant s) {c : Nat} {old new : Call} {x : Index}
    {notify : Bool} (hc : s.calls[c]? = some old)
    (hmove : Moves s.index c old new x notify) :
    LogInvariant { s with index := x, calls := s.calls.set c new } := by
  have hold := h.landed old (List.mem_of_getElem? hc)
  -- moves that leave the index and the learnt offset alone
  have hquiet : ∀ x : Index, x.file = s.index.file →
      x.writeOffset = s.index.writeOffset → x.log = s.index.log →
      x.indexMap = s.index.indexMap → new.landed = old.landed →
      LogInvariant { s with index := x, calls := s.calls.set c new } := by
    intro x hfile hoffset hlog hmap hlanded
    have happended : new.appended = old.appended := by
      rw [Call.appended, Call.appended, hlanded]
    refine ⟨?_, ?_, ?_, ?_, ?_⟩
    · simpa only [Index.records, hfile, hoffset, hlog] using h.content
    · simpa only [Index.records, hoffset, hlog] using h.length_eq
    · simpa only [hlog] using h.appended.set hc new happended
    · simp only [Index.records, hlog]
      apply forall_mem_set h.landed
      rw [hlanded]
      exact hold
    · simpa only [Index.records, hlog, hmap] using h.indexMap
  cases hmove with
  | appends id text =>
      have hstart := StartsAt.last s.index.records ⟨id, text⟩
      have hrecords : (s.index.append c ⟨id, text⟩).records =
          s.index.records ++ [⟨id, text⟩] := by
        simp [Index.records, Index.append]
      have hline : encodeAll [⟨id, text⟩] = (Record.mk id text).line := by
        simp [encodeAll]
      refine ⟨?_, ?_, ?_, ?_, ?_⟩
      · rw [hrecords, encodeAll_append, hline, ← h.content]
        exact take_pwrite_add h.writeOffset_le
      · rw [hrecords, encodeAll_append, hline, List.length_append,
          ← h.length_eq]
        rfl
      · exact h.appended.set_concat hc rfl rfl
      · rw [hrecords]
        refine forall_mem_set (fun call hcall r offset hlanded =>
          (h.landed call hcall r offset hlanded).append _) ?_
        intro r offset hlanded
        cases hlanded
        rw [h.length_eq]
        exact hstart
      · rw [hrecords]
        intro e he
        obtain ⟨text', hstart'⟩ := h.indexMap e he
        exact ⟨text', hstart'.append _⟩
  | appendsShort id text written _ =>
      refine ⟨?_, h.length_eq, h.appended.set hc _ rfl, ?_, h.indexMap⟩
      · show (pwrite s.index.file s.index.writeOffset _).take
            s.index.writeOffset = encodeAll s.index.records
        rw [take_pwrite_of_le h.writeOffset_le (Nat.le_refl _)]
        exact h.content
      · exact forall_mem_set h.landed fun r offset hlanded => by
          cases hlanded
  | updates id text offset =>
      refine ⟨h.content, h.length_eq, h.appended.set hc _ rfl, ?_, ?_⟩
      · exact forall_mem_set h.landed hold
      · intro e he
        rcases OrderedMap.mem_insert.mp he with rfl | ⟨he, -⟩
        · exact ⟨text, hold _ _ rfl⟩
        · exact h.indexMap e he
  | insertLeaves id text result =>
      cases result <;> exact hquiet _ rfl rfl rfl rfl rfl
  | insertLeft id text result =>
      cases result <;> exact hquiet _ rfl rfl rfl rfl rfl
  | _ => exact hquiet _ rfl rfl rfl rfl rfl

theorem begin (h : LogInvariant s) {call : Call}
    (hcall : call.landed = none) : LogInvariant (s.begin call) where
  content := h.content
  length_eq := h.length_eq
  appended := h.appended.concat (by rw [Call.appended, hcall]; rfl)
  landed := forall_mem_concat h.landed fun r offset hlanded => by
    rw [hcall] at hlanded
    cases hlanded
  indexMap := h.indexMap

/-- Calls that change without any of them learning an offset. -/
theorem withCalls (h : LogInvariant s) {calls : List Call}
    {history : List Event}
    (hsame : calls.map Call.landed = s.calls.map Call.landed) :
    LogInvariant { s with calls := calls, history := history } where
  content := h.content
  length_eq := h.length_eq
  appended := h.appended.congr (by
    have hmap := congrArg (List.map (Option.map Prod.fst)) hsame
    rw [List.map_map, List.map_map] at hmap
    exact hmap)
  landed := by
    intro call hcall r offset hlanded
    have hmem : call.landed ∈ calls.map Call.landed :=
      List.mem_map_of_mem hcall
    rw [hsame, hlanded] at hmem
    obtain ⟨call', hcall', hlanded'⟩ := List.mem_map.mp hmem
    exact h.landed call' hcall' r offset hlanded'
  indexMap := h.indexMap

/-- **Every step preserves the invariant.** -/
theorem step (h : LogInvariant s) {a : Action} {t : State}
    (hstep : Step s a t) : LogInvariant t := by
  cases hstep with
  | insert id text => exact h.begin rfl
  | query minId limit => exact h.begin rfl
  | close => exact h.begin rfl
  | wakeSpuriously c call hc =>
      exact h.withCalls (map_set_of_eq _ hc call.landed_wake)
  | move c old new x notify hc hmove _ =>
      exact (h.moves hc hmove).withCalls
        (map_ite_map_of_eq _ Call.landed_wake notify _)
  | preadFails c minId limit admitted iter hc _ =>
      exact h.withCalls (map_set_of_eq _ hc rfl)

end LogInvariant

/-! ## Failed inserts -/

/-- The part of the index that only successful `Insert`s change. -/
def SameIndex (x y : Index) : Prop :=
  y.writeOffset = x.writeOffset ∧ y.indexMap = x.indexMap ∧
    y.file.take x.writeOffset = x.file.take x.writeOffset

/-- An offset that is learnt is kept. -/
theorem Moves.landed {x y : Index} {c : Nat} {old new : Call} {notify : Bool}
    (h : Moves x c old new y notify) {p : Record × Nat}
    (hold : old.landed = some p) : new.landed = some p := by
  cases h with
  | insertLeaves id text result => cases result <;> exact hold
  | insertLeft id text result => cases result <;> exact hold
  | updates id text offset => exact hold
  | insertLocksMap id text offset => exact hold
  | _ => cases hold

/-- What every move of a call keeps, every step keeps. -/
theorem Step.persists {β : Type*} (f : Call → Option β)
    (hwake : ∀ call, f call.wake = f call)
    (hmoves : ∀ {x y c old new notify v}, Moves x c old new y notify →
      f old = some v → f new = some v)
    (hfails : ∀ minId limit admitted iter,
      f (.query minId limit (.returned admitted (iter.answer .failed))) =
        f (.query minId limit (.returned admitted iter)))
    {s t : State} {a : Action} (h : Step s a t) {c : Nat} {v : β}
    (hc : (s.calls.map f)[c]? = some (some v)) :
    (t.calls.map f)[c]? = some (some v) := by
  have hbegin : ∀ call, ((s.calls ++ [call]).map f)[c]? = some (some v) := by
    intro call
    rw [List.map_append, List.map_singleton, getElem?_concat_eq_some]
    exact .inl hc
  cases h with
  | insert id text => exact hbegin _
  | query minId limit => exact hbegin _
  | close => exact hbegin _
  | wakeSpuriously d call hd => rwa [map_set_of_eq _ hd (hwake call)]
  | move d old new x notify hd hmove _ =>
      have hset : ((s.calls.set d new).map f)[c]? = some (some v) := by
        rw [List.getElem?_map, getElem?_set_eq hd]
        split
        next hdc =>
          subst hdc
          rw [List.getElem?_map, hd, Option.map_some,
            Option.some.injEq] at hc
          rw [Option.map_some, hmoves hmove hc]
        · rwa [List.getElem?_map] at hc
      rwa [← map_ite_map_of_eq _ hwake notify] at hset
  | preadFails d minId limit admitted iter hd _ =>
      rwa [map_set_of_eq _ hd (hfails minId limit admitted iter)]

theorem Step.landed {s t : State} {a : Action} (h : Step s a t) {c : Nat}
    {p : Record × Nat}
    (hc : (s.calls.map Call.landed)[c]? = some (some p)) :
    (t.calls.map Call.landed)[c]? = some (some p) :=
  h.persists Call.landed Call.landed_wake
    (fun hmove hold => hmove.landed hold) (fun _ _ _ _ => rfl) hc

/-- A move of a call that has not learnt an offset by then leaves the
representation alone. -/
theorem LogInvariant.sameIndex_or_landed {s t : State} (h : LogInvariant s)
    {c : Nat} (hstep : Step s (.move c) t) :
    SameIndex s.index t.index ∨
      ∃ p, (t.calls.map Call.landed)[c]? = some (some p) := by
  cases hstep with
  | move _ old new x notify hc hmove _ =>
      have hlanded : ∀ p, new.landed = some p → ∃ p,
          ((if notify then (s.calls.set c new).map Call.wake
            else s.calls.set c new).map Call.landed)[c]? = some (some p) := by
        intro p hp
        refine ⟨p, ?_⟩
        rw [map_ite_map_of_eq _ Call.landed_wake, List.getElem?_map,
          List.getElem?_set_self (lt_length_of_getElem? hc), Option.map_some,
          hp]
      cases hmove with
      | appends id text => exact .inr (hlanded _ rfl)
      | updates id text offset => exact .inr (hlanded _ rfl)
      | appendsShort id text written _ =>
          exact .inl ⟨rfl, rfl,
            take_pwrite_of_le h.writeOffset_le (Nat.le_refl _)⟩
      | _ => exact .inl ⟨rfl, rfl, rfl⟩

/-! ## The representation -/

/-- What the file and the map hold. -/
structure LogMatchesFile (s : State) : Prop where
  /-- The log lists the `Insert`s whose append succeeded. -/
  appended : Records Call.appended s.calls s.index.log
  content : s.index.file.take s.index.writeOffset = encodeAll s.index.records
  length_eq : s.index.writeOffset = (encodeAll s.index.records).length
  indexMap : ∀ e ∈ s.index.indexMap.entries, ∃ text,
    StartsAt s.index.records e.2 ⟨e.1, text⟩

/-- **The file is the log, and the index points into it.**  In every state
reachable by any interleaving, with any outcome of each `pwrite`: the bytes
below `writeOffset` are the lines of the successful appends in append order,
and every entry of `indexMap` is the start of a line with its id.  No move of
an `Insert` that ends by returning nonzero changes `writeOffset`, `indexMap`
or a byte below `writeOffset`. -/
theorem log_matches_file {s : State} (hs : Reaches Step .initial s) :
    LogMatchesFile s ∧
      ∀ (c : Nat) (t u : State) (id : UInt64) (text : Bytes)
        (result : InsertResult),
        Step s (.move c) t → Reaches Step t u →
        u.calls[c]? = some (.insert id text (.returned result)) →
        result.code ≠ 0 → SameIndex s.index t.index := by
  have hinv := hs.invariant (fun _ _ _ h hstep => h.step hstep)
    logInvariant_initial
  refine ⟨⟨hinv.appended, hinv.content, hinv.length_eq, hinv.indexMap⟩, ?_⟩
  intro c t u id text result hstep htu hc hcode
  rcases hinv.sameIndex_or_landed hstep with hsame | ⟨p, hp⟩
  · exact hsame
  · have hlanded := htu.invariant (fun _ _ _ h hstep => hstep.landed h) hp
    rw [List.getElem?_map, hc, Option.map_some, Option.some.injEq] at hlanded
    cases result with
    | rejected => cases hlanded
    | failed => cases hlanded
    | inserted offset => exact absurd rfl hcode

/-- A short write leaves two bytes behind; the next append overwrites them. -/
theorem log_matches_file_after_short :
    ∃ s, Reaches Step .initial s ∧ LogMatchesFile s ∧
      s.index.log = [(1, ⟨5, [98]⟩)] ∧
      s.calls = [.insert 5 [97] (.leave .failed),
        .insert 5 [98] (.update 0)] := by
  have hbegun : Step .initial (.insert 5 [97]) _ := .insert _ _ _
  have hshort := ((((Reaches.single hbegun).tail
    (.move _ 0 _ _ _ _ rfl (.insertEnters _ _) rfl)).tail
    (.move _ 0 _ _ _ _ rfl (.insertAdmitted _ _ rfl) rfl)).tail
    (.move _ 0 _ _ _ _ rfl (.insertLocksFile _ _) rfl)).tail
    (.move _ 0 _ _ _ _ rfl (.appendsShort _ _ 2 (by decide)) rfl)
  have hwhole := ((((hshort.tail (.insert _ 5 [98])).tail
    (.move _ 1 _ _ _ _ rfl (.insertEnters _ _) rfl)).tail
    (.move _ 1 _ _ _ _ rfl (.insertAdmitted _ _ rfl) rfl)).tail
    (.move _ 1 _ _ _ _ rfl (.insertLocksFile _ _) rfl)).tail
    (.move _ 1 _ _ _ _ rfl (.appends _ _) rfl)
  exact ⟨_, hwhole, (log_matches_file hwhole).1, rfl, rfl⟩

end GoPrep.Ports.IteratorPlusIndex
