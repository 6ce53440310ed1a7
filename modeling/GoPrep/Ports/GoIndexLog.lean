import GoPrep.Ports.GoIndexQuery
import GoPrep.Verified.ThreadTable
import GoPrep.Verified.Transition

/-!
# What a Go query can point at

`Insert` writes to the file, gives up the file lock, and then updates the map,
so a map entry never runs ahead of the file: its offset is where a complete
record of its id landed.  A `Query` copies entries while it holds the lock of
the map for reading, and the file only grows, so the offsets it returned stay
good.

## Main results

* `LogInvariant.step` — the order of the two updates, in all interleavings.
* `collect_sublist` — for every limit the loop collects entries above the
  bound, ascending.
* `query_points_at_records` — every offset that any `Query` has collected is
  that of a complete record above its bound, then and ever after.
-/

namespace GoPrep.Ports.GoIndex

open GoPrep.Verified.ByteFile
open GoPrep.Verified.SortedMap
open GoPrep.Verified.ThreadTable
open GoPrep.Verified.Transition

variable {landing : List Record → Nat}

/-- A complete record of the id is in the file, and landed at the offset. -/
def Landed (landing : List Record → Nat) (file : List Record)
    (e : UInt64 × Nat) : Prop :=
  ∃ before r after, file = before ++ r :: after ∧ r.id = e.1 ∧
    e.2 = landing before

theorem Landed.append {file : List Record} {e : UInt64 × Nat}
    (h : Landed landing file e) (more : List Record) :
    Landed landing (file ++ more) e := by
  obtain ⟨before, r, after, rfl, hid, hoffset⟩ := h
  exact ⟨before, r, after ++ more, by simp, hid, hoffset⟩

theorem Landed.last (file : List Record) (r : Record) :
    Landed landing (file ++ [r]) (r.id, landing file) :=
  ⟨file, r, [], rfl, rfl, rfl⟩

/-- What a `Query` with this bound and limit may have collected from a
file. -/
structure PointsAbove (landing : List Record → Nat) (file : List Record)
    (minId : UInt64) (limit : Int) (found : List (UInt64 × Nat)) : Prop where
  landed : ∀ e ∈ found, Landed landing file e
  above : ∀ e ∈ found, minId < e.1
  ascending : found.Pairwise fun a b => a.1 < b.1
  /-- Even without room the loop may take one entry. -/
  length_le : (found.length : Int) ≤ max limit 1

theorem PointsAbove.append {file : List Record} {minId : UInt64}
    {limit : Int} {found : List (UInt64 × Nat)}
    (h : PointsAbove landing file minId limit found) (more : List Record) :
    PointsAbove landing (file ++ more) minId limit found :=
  { h with landed := fun e he => (h.landed e he).append more }

/-- **The loop of `Query` collects entries above the bound.** -/
theorem collect_sublist (x : Index) (minId : UInt64) (limit : Int) :
    ∃ found : List (UInt64 × Nat), x.collect minId limit =
        found.map Prod.snd ∧
      found.Sublist x.indexMap.entries ∧
      (∀ e ∈ found, minId < e.1) ∧ (found.length : Int) ≤ max limit 1 := by
  by_cases hlimit : 0 < limit
  · have hloop := rangeLoop_eq minId limit x.indexMap.entries [] 0 hlimit
    rw [Int.sub_zero, List.nil_append] at hloop
    refine ⟨_, hloop,
      (List.take_sublist _ _).trans List.filter_sublist, ?_, ?_⟩
    · intro e he
      have hmem := List.mem_of_mem_take he
      exact of_decide_eq_true (List.mem_filter.mp hmem).2
    · rw [List.length_take]
      omega
  · have hloop := rangeLoop_of_le minId (Int.not_lt.mp hlimit)
      x.indexMap.entries
    refine ⟨_, hloop,
      List.filter_sublist.trans (List.take_sublist _ _), ?_, ?_⟩
    · intro e he
      exact of_decide_eq_true (List.mem_filter.mp he).2
    · have hlength := List.length_filter_le
        (fun e : UInt64 × Nat => decide (minId < e.1))
        (x.indexMap.entries.take 1)
      rw [List.length_take] at hlength
      omega

/-! ## The invariant -/

/-- What a call carries has landed. -/
def Call.Carries (landing : List Record → Nat) (file : List Record) :
    Call → Prop
  | .insert id _ (.lockingMap byteOffset) =>
      Landed landing file (id, byteOffset)
  | .insert id _ (.updating byteOffset) =>
      Landed landing file (id, byteOffset)
  | .query minId limit (.finishing fileOffsets) =>
      ∃ found, fileOffsets = found.map Prod.snd ∧
        PointsAbove landing file minId limit found
  | .query minId limit (.releasing fileOffsets) =>
      ∃ found, fileOffsets = found.map Prod.snd ∧
        PointsAbove landing file minId limit found
  | .query minId limit (.returned fileOffsets) =>
      ∃ found, fileOffsets = found.map Prod.snd ∧
        PointsAbove landing file minId limit found
  | _ => True

theorem Call.Carries.append {file : List Record} {call : Call}
    (h : call.Carries landing file) (more : List Record) :
    call.Carries landing (file ++ more) := by
  unfold Carries at h ⊢
  split
  · exact Landed.append h more
  · exact Landed.append h more
  · obtain ⟨found, hoffsets, hpoints⟩ := h
    exact ⟨found, hoffsets, hpoints.append more⟩
  · obtain ⟨found, hoffsets, hpoints⟩ := h
    exact ⟨found, hoffsets, hpoints.append more⟩
  · obtain ⟨found, hoffsets, hpoints⟩ := h
    exact ⟨found, hoffsets, hpoints.append more⟩
  · trivial

theorem Call.Carries.release {file : List Record} {call : Call}
    (h : call.Carries landing file) : call.release.Carries landing file := by
  unfold Call.release
  split
  · trivial
  · exact h

/-- The map and the calls never run ahead of the file. -/
structure LogInvariant (landing : List Record → Nat) (s : State) : Prop where
  mapped : ∀ e ∈ s.index.indexMap.entries, Landed landing s.index.file e
  carried : ∀ call ∈ s.calls, call.Carries landing s.index.file

theorem logInvariant_initial : LogInvariant landing .initial where
  mapped := fun _ he => absurd he List.not_mem_nil
  carried := fun _ hcall => absurd hcall List.not_mem_nil

/-- The file only grows. -/
theorem Moves.file_prefix {x y : Index} {old new : Call} {released : Bool}
    (h : Moves landing x old new y released) : x.file <+: y.file := by
  cases h with
  | writes id text => exact List.prefix_append _ _
  | _ => exact List.prefix_refl _

namespace LogInvariant

variable {s : State}

/-- What one move does to the map and to its own call. -/
theorem moves (h : LogInvariant landing s) {old new : Call} {y : Index}
    {released : Bool} (hold : old ∈ s.calls)
    (hmove : Moves landing s.index old new y released) :
    (∀ e ∈ y.indexMap.entries, Landed landing y.file e) ∧
      new.Carries landing y.file := by
  have hcarried := h.carried old hold
  cases hmove with
  | writes id text =>
      exact ⟨fun e he => (h.mapped e he).append _, Landed.last _ ⟨id, text⟩⟩
  | insertLocksMap id text byteOffset => exact ⟨h.mapped, hcarried⟩
  | updates id text byteOffset =>
      refine ⟨fun e he => ?_, trivial⟩
      rcases OrderedMap.mem_insert.mp he with rfl | ⟨he, -⟩
      · exact hcarried
      · exact h.mapped e he
  | queryRejected minId limit _ =>
      refine ⟨h.mapped, [], rfl, ?_⟩
      constructor <;> simp
  | traverses minId limit =>
      obtain ⟨found, hcollect, hsublist, habove, hlength⟩ :=
        collect_sublist s.index minId limit
      exact ⟨h.mapped, found, hcollect,
        { landed := fun e he => h.mapped e (hsublist.subset he)
          above := habove
          ascending := s.index.indexMap.ascending.sublist hsublist
          length_le := hlength }⟩
  | queryFinishes | queryFinishesLast | queryReleases =>
      exact ⟨h.mapped, hcarried⟩
  | _ => exact ⟨h.mapped, trivial⟩

theorem begin (h : LogInvariant landing s) {call : Call}
    (hcall : call.Carries landing s.index.file) :
    LogInvariant landing { s with calls := s.calls ++ [call] } :=
  ⟨h.mapped, forall_mem_concat h.carried hcall⟩

theorem step (h : LogInvariant landing s) {a : Action} {t : State}
    (hstep : Step landing s a t) : LogInvariant landing t := by
  obtain ⟨-, hrule⟩ := hstep
  cases hrule with
  | insert id text => exact h.begin trivial
  | query minId limit => exact h.begin trivial
  | close => exact h.begin trivial
  | move c old new y released hc hmove _ =>
      obtain ⟨hmapped, hnew⟩ := h.moves (List.mem_of_getElem? hc) hmove
      obtain ⟨more, hfile⟩ := hmove.file_prefix
      have hcarried : ∀ call ∈ s.calls.set c new,
          call.Carries landing y.file := by
        refine forall_mem_set (fun call hcall => ?_) hnew
        rw [← hfile]
        exact (h.carried call hcall).append more
      exact ⟨hmapped, forall_mem_ite_map hcarried
        (fun call hcall => hcall.release) released⟩

end LogInvariant

theorem Step.file_prefix {s t : State} {a : Action}
    (h : Step landing s a t) : s.index.file <+: t.index.file := by
  obtain ⟨-, hrule⟩ := h
  cases hrule with
  | move c old new y released _ hmove _ => exact hmove.file_prefix
  | _ => exact List.prefix_refl _

theorem file_prefix_of_reaches {s t : State}
    (h : Reaches (Step landing) s t) : s.index.file <+: t.index.file := by
  induction h with
  | refl => exact List.prefix_refl _
  | tail _ hlast ih => exact ih.trans hlast.file_prefix

/-- **Offsets point at complete records.**  In every reachable state, for
every placement of the records by `writeData`: each map entry, and whatever a
`Query` has collected, points at complete records of ids above the bound in
ascending order, and still does in every later state. -/
theorem query_points_at_records (landing : List Record → Nat) {s t : State}
    (hs : Reaches (Step landing) .initial s)
    (ht : Reaches (Step landing) s t) :
    (∀ e ∈ s.index.indexMap.entries, Landed landing t.index.file e) ∧
      ∀ minId limit fileOffsets,
        (.query minId limit (.finishing fileOffsets) ∈ s.calls ∨
          .query minId limit (.releasing fileOffsets) ∈ s.calls ∨
          .query minId limit (.returned fileOffsets) ∈ s.calls) →
        ∃ found, fileOffsets = found.map Prod.snd ∧
          PointsAbove landing t.index.file minId limit found := by
  have hinv : LogInvariant landing s :=
    hs.invariant (fun _ _ _ h hstep => h.step hstep) logInvariant_initial
  obtain ⟨more, hfile⟩ := file_prefix_of_reaches ht
  rw [← hfile]
  refine ⟨fun e he => (hinv.mapped e he).append more, ?_⟩
  rintro minId limit fileOffsets (hmem | hmem | hmem) <;>
  · obtain ⟨found, hoffsets, hpoints⟩ := hinv.carried _ hmem
    exact ⟨found, hoffsets, hpoints.append more⟩

/-- One record, and a `Query` that has returned its offset. -/
def oneQueried : State :=
  { index :=
      { file := [⟨5, [97]⟩]
        indexMap := OrderedMap.empty.insert 5 0
        wg := 0
        waiters := 0
        ctxDone := false }
    calls := [.insert 5 [97] (.returned none), .query 2 1 (.returned [0])] }

theorem reaches_oneQueried :
    Reaches (Step List.length) .initial oneQueried := by
  have hbegun : Step List.length .initial (.insert 5 [97]) _ :=
    ⟨rfl, .insert _ _ _⟩
  have hwritten := ((((Reaches.single hbegun).tail
    ⟨rfl, .move _ 0 _ _ _ _ rfl (.insertChecks _ _ rfl) rfl⟩).tail
    ⟨rfl, .move _ 0 _ _ _ _ rfl (.insertAdds _ _ rfl) rfl⟩).tail
    ⟨rfl, .move _ 0 _ _ _ _ rfl (.opens _ _) rfl⟩).tail
    ⟨rfl, .move _ 0 _ _ _ _ rfl (.insertLocksFile _ _) rfl⟩
  have hupdated := ((hwritten.tail
    ⟨rfl, .move _ 0 _ _ _ _ rfl (.writes _ _) rfl⟩).tail
    ⟨rfl, .move _ 0 _ _ _ _ rfl (.insertLocksMap _ _ _) rfl⟩).tail
    ⟨rfl, .move _ 0 _ _ _ _ rfl (.updates _ _ _) rfl⟩
  have hinserted := hupdated.tail
    ⟨rfl, .move _ 0 _ _ _ _ rfl (.insertFinishes _ _ _ rfl) rfl⟩
  have hqueried := ((hinserted.tail ⟨rfl, .query _ 2 1⟩).tail
    ⟨rfl, .move _ 1 _ _ _ _ rfl (.queryChecks _ _ rfl) rfl⟩).tail
    ⟨rfl, .move _ 1 _ _ _ _ rfl (.queryAdds _ _ rfl) rfl⟩
  have hreturned := ((hqueried.tail
    ⟨rfl, .move _ 1 _ _ _ _ rfl (.queryLocksMap _ _) rfl⟩).tail
    ⟨rfl, .move _ 1 _ _ _ _ rfl (.traverses _ _) rfl⟩).tail
    ⟨rfl, .move _ 1 _ _ _ _ rfl (.queryFinishes _ _ _ rfl) rfl⟩
  exact hreturned

theorem query_points_at_records_one :
    ∃ found, [0] = found.map Prod.snd ∧
      PointsAbove List.length oneQueried.index.file 2 1 found :=
  (query_points_at_records List.length reaches_oneQueried .refl).2 2 1 [0]
    (.inr (.inr (by decide)))

end GoPrep.Ports.GoIndex
