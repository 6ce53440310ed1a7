import GoPrep.Verified.SortedMap
import GoPrep.Verified.ThreadTable

/-!
# A map of offsets and a replay of the file

Records stand in a file one after the other, and a map keeps for each key where
a record of it starts.  Callers append a record and assign its offset in two
steps, so the assignments may come in another order than the appends.

`placedFrom` pairs the records of a file with their offsets, and `landings`
names the callers as well.  `replay` is the map that assigns them from start to
end.

## Main results

* `placedFrom_ascending` — later records start later.
* `Newest.concat` — an assignment that does not go back in the file keeps
  every key at its greatest offset.
* `Newest.ofLog_eq_replay` — so the map is the replay of the file, once both
  list the same callers.
-/

namespace GoPrep.Verified.Replay

open GoPrep.Verified.SortedMap
open GoPrep.Verified.ThreadTable

variable {R K : Type*}

/-! ## Records at their offsets -/

/-- The records of a file, with the offsets where they start. -/
def placedFrom (size : R → Nat) : Nat → List R → List (R × Nat)
  | _, [] => []
  | offset, r :: rest => (r, offset) :: placedFrom size (offset + size r) rest

variable {size : R → Nat}

theorem map_fst_placedFrom (offset : Nat) (records : List R) :
    (placedFrom size offset records).map Prod.fst = records := by
  induction records generalizing offset with
  | nil => rfl
  | cons r rest ih => rw [placedFrom, List.map_cons, ih]

theorem length_placedFrom (offset : Nat) (records : List R) :
    (placedFrom size offset records).length = records.length := by
  rw [← List.length_map Prod.fst, map_fst_placedFrom]

theorem placedFrom_concat (offset : Nat) (records : List R) (r : R) :
    placedFrom size offset (records ++ [r]) = placedFrom size offset records ++
      [(r, offset + (records.map size).sum)] := by
  induction records generalizing offset with
  | nil => rfl
  | cons r' rest ih =>
      rw [List.cons_append, placedFrom, ih, placedFrom, List.map_cons,
        List.sum_cons, Nat.add_assoc]
      rfl

theorem le_of_mem_placedFrom {offset : Nat} {records : List R} {p : R × Nat}
    (h : p ∈ placedFrom size offset records) : offset ≤ p.2 := by
  induction records generalizing offset with
  | nil => cases h
  | cons r rest ih =>
      rcases List.mem_cons.mp h with rfl | h
      · exact Nat.le_refl _
      · exact Nat.le_trans (Nat.le_add_right _ _) (ih h)

/-- **Later records start later.** -/
theorem placedFrom_ascending (hsize : ∀ r, 0 < size r) (offset : Nat)
    (records : List R) :
    (placedFrom size offset records).Pairwise fun a b => a.2 < b.2 := by
  induction records generalizing offset with
  | nil => exact List.Pairwise.nil
  | cons r rest ih =>
      refine List.pairwise_cons.mpr ⟨fun p hp => ?_, ih _⟩
      exact Nat.lt_of_lt_of_le (Nat.lt_add_of_pos_right (hsize r))
        (le_of_mem_placedFrom hp)

/-- The callers that have appended, with their records and offsets. -/
def landings (size : R → Nat) (start : Nat) (log : List (Nat × R)) :
    List (Nat × (R × Nat)) :=
  (log.map Prod.fst).zip (placedFrom size start (log.map Prod.snd))

theorem landings_concat (start : Nat) (log : List (Nat × R)) (c : Nat)
    (r : R) :
    landings size start (log ++ [(c, r)]) = landings size start log ++
      [(c, (r, start + ((log.map Prod.snd).map size).sum))] := by
  rw [landings, List.map_append, List.map_append, List.map_singleton,
    List.map_singleton, placedFrom_concat, List.zip_append]
  · rfl
  · rw [length_placedFrom, List.length_map, List.length_map]

theorem map_snd_landings (start : Nat) (log : List (Nat × R)) :
    (landings size start log).map Prod.snd =
      placedFrom size start (log.map Prod.snd) := by
  apply List.map_snd_zip
  rw [length_placedFrom, List.length_map, List.length_map]

/-! ## Assigning the offsets -/

variable [LinearOrder K]

/-- What the map keeps of a record at an offset. -/
def mapEntry (key : R → K) (p : R × Nat) : K × Nat := (key p.1, p.2)

/-- Reading the file from start to end, each record assigning its offset to
its key. -/
def replay (key : R → K) (size : R → Nat) (start : Nat) (records : List R) :
    OrderedMap K Nat :=
  ofLog ((placedFrom size start records).map (mapEntry key))

/-- No assignment is greater than the entry of its key. -/
def Newest (assigned : List (K × Nat)) : Prop :=
  ∀ e ∈ assigned, ∃ offset, (e.1, offset) ∈ (ofLog assigned).entries ∧
    e.2 ≤ offset

namespace Newest

variable {assigned : List (K × Nat)}

theorem nil : Newest ([] : List (K × Nat)) := fun _ he => by cases he

/-- **An assignment that does not go back** is the greatest of its key. -/
theorem concat (h : Newest assigned) {k : K} {offset : Nat}
    (hforward : ∀ older, (k, older) ∈ (ofLog assigned).entries →
      older < offset) : Newest (assigned ++ [(k, offset)]) := by
  have hself : (k, offset) ∈ (ofLog (assigned ++ [(k, offset)])).entries := by
    rw [ofLog_concat]
    exact OrderedMap.mem_insert.mpr (.inl rfl)
  intro e he
  rcases List.mem_append.mp he with he | he
  · obtain ⟨older, hmem, hle⟩ := h e he
    by_cases hk : e.1 = k
    · rw [hk] at hmem ⊢
      exact ⟨offset, hself, Nat.le_trans hle (hforward older hmem).le⟩
    · refine ⟨older, ?_, hle⟩
      rw [ofLog_concat]
      exact OrderedMap.mem_insert.mpr (.inr ⟨hmem, hk⟩)
  · rw [List.mem_singleton.mp he]
    exact ⟨offset, hself, Nat.le_refl _⟩

/-- With every key at its greatest offset, the assignments build the map that
the same ones build in ascending order. -/
theorem ofLog_eq (h : Newest assigned) {ascending : List (K × Nat)}
    (hasc : ascending.Pairwise fun a b => a.2 < b.2)
    (hsame : ∀ e, e ∈ ascending ↔ e ∈ assigned) :
    ofLog assigned = ofLog ascending := by
  apply OrderedMap.eq_of_mem_iff
  rintro ⟨k, offset⟩
  have hlast : (k, offset) ∈ (ofLog ascending).entries ↔ _ :=
    mem_ofLog.trans (latest_eq_some_iff_of_ascending hasc)
  rw [hlast]
  simp only [hsame]
  constructor
  · intro hmem
    refine ⟨mem_of_mem_ofLog hmem, fun w hw => ?_⟩
    obtain ⟨o, ho, hle⟩ := h _ hw
    rw [mem_ofLog, mem_ofLog.mp hmem, Option.some.injEq] at ho
    exact ho ▸ hle
  · rintro ⟨hmem, hmax⟩
    obtain ⟨o, ho, hle⟩ := h _ hmem
    obtain rfl : o = offset :=
      Nat.le_antisymm (hmax o (mem_of_mem_ofLog ho)) hle
    exact ho

end Newest

/-- **The map is the replay of the file** where every key is at its greatest
offset and the callers that have assigned are those that have appended. -/
theorem Newest.ofLog_eq_replay {key : R → K} (hsize : ∀ r, 0 < size r)
    {τ : Type*} {landed : τ → Option (R × Nat)} {calls : List τ} {start : Nat}
    {log : List (Nat × R)} {updates : List (Nat × (R × Nat))}
    (hnewest : Newest (updates.map fun entry => mapEntry key entry.2))
    (happends : Records landed calls (landings size start log))
    (hupdates : Records landed calls updates) :
    ofLog (updates.map fun entry => mapEntry key entry.2) =
      replay key size start (log.map Prod.snd) := by
  have hsame : ∀ entry, entry ∈ landings size start log ↔
      entry ∈ updates := fun entry => by
    rw [happends.mem_iff, hupdates.mem_iff]
  refine hnewest.ofLog_eq (List.pairwise_map.mpr
    (placedFrom_ascending hsize start _)) fun e => ?_
  rw [← map_snd_landings, List.map_map, List.mem_map, List.mem_map]
  exact exists_congr fun entry => and_congr_left fun _ => hsame entry

end GoPrep.Verified.Replay
