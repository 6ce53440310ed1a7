import GoPrep.Ports.IndexAndIteratorCalls
import GoPrep.Verified.Replay

/-!
# The lines of the tab-separated table

An `insert` learns from `tellp` where its line will start and writes the line,
both under `fileMutex`.  A line may reach the file in pieces of any size; the
lock keeps the pieces of different lines apart, so the file is the one there
was, then whole lines in the order of the appends, then a part of one.

## Main results

* `TableInvariant.step` — the file in every state, and the offsets the
  `insert`s have learnt.
-/

namespace GoPrep.Ports.IndexAndIterator

open GoPrep.Verified
open GoPrep.Verified.ByteFile
open GoPrep.Verified.Linearization
open GoPrep.Verified.ThreadTable
open GoPrep.Verified.Transition

/-- The record whose line the call has completed, with the offset it learnt. -/
def Call.landed : Call → Option (Record × Nat)
  | .insert id value (.lockingMap currenOffset) =>
      some (⟨id, value⟩, currenOffset)
  | .insert id value (.updating currenOffset) =>
      some (⟨id, value⟩, currenOffset)
  | .insert id value (.returned currenOffset) =>
      some (⟨id, value⟩, currenOffset)
  | _ => none

/-- The record whose line the call is writing, where the line starts, and what
is left of it. -/
def Call.writing : Call → Option (Record × Nat × Bytes)
  | .insert id value (.writing currenOffset left) =>
      some (⟨id, value⟩, currenOffset, left)
  | _ => none

/-- `part` is what is in the file, from `start` on, of the one line that is
being written. -/
def PartOf (start : Nat) (part : Bytes) : List (Record × Nat × Bytes) → Prop
  | [] => part = []
  | [(r, currenOffset, left)] => currenOffset = start ∧ part ++ left = r.line
  | _ => False

/-- How much of the file a record takes. -/
def lineSize (r : Record) : Nat := r.line.length

/-- The lines of the calls in the log, one after the other. -/
def wholeLines (log : List (Nat × Record)) : Bytes :=
  (log.map Prod.snd).flatMap Record.line

/-- The calls in the log, with their records and offsets, behind `file`. -/
def landings (file : Bytes) (log : List (Nat × Record)) :
    List (Nat × (Record × Nat)) :=
  Replay.landings lineSize file.length log

/-- The file that was `file` holds the whole lines of the log, and a part of
one. -/
structure Lines (file : Bytes) (s : State) (log : List (Nat × Record))
    (part : Bytes) : Prop where
  table : s.index.table = file ++ wholeLines log ++ part
  landed : Records Call.landed s.calls (landings file log)
  partOf : PartOf (file ++ wholeLines log).length part
    (s.calls.filterMap Call.writing)

structure TableInvariant (file : Bytes) (s : State) : Prop where
  holders_le : s.calls.countP Call.holdsFile ≤ 1
  lines : ∃ log part, Lines file s log part

theorem tableInvariant_initial (x : Index) :
    TableInvariant x.table (.initial x) where
  holders_le := Nat.zero_le _
  lines := ⟨[], [], by simp [State.initial, wholeLines], .nil _, rfl⟩

theorem wholeLines_concat (log : List (Nat × Record)) (c : Nat) (r : Record) :
    wholeLines (log ++ [(c, r)]) = wholeLines log ++ r.line := by
  simp [wholeLines]

/-- A line that lands at the end of the file. -/
theorem landings_concat (file : Bytes) (log : List (Nat × Record)) (c : Nat)
    (r : Record) :
    landings file (log ++ [(c, r)]) = landings file log ++
      [(c, (r, (file ++ wholeLines log).length))] := by
  rw [List.length_append, wholeLines, List.length_flatMap]
  exact Replay.landings_concat file.length log c r

theorem Call.holdsFile_of_writing {call : Call}
    (h : call.writing ≠ none) : call.holdsFile = true := by
  match call with
  | .insert _ _ (.writing _ _) => rfl
  | .insert _ _ .lockingFile | .insert _ _ .telling
  | .insert _ _ (.lockingMap _) | .insert _ _ (.updating _)
  | .insert _ _ (.returned _) | .query _ _ _ => exact absurd rfl h

/-- Who holds `fileMutex` is the only one that may be writing. -/
theorem filterMap_writing {calls : List Call} {c : Nat} {call : Call}
    (hone : calls.countP Call.holdsFile ≤ 1) (hc : calls[c]? = some call)
    (hholds : call.holdsFile = true) :
    calls.filterMap Call.writing = call.writing.toList := by
  refine filterMap_eq_of_countP_le_one (fun other hother => ?_) hone hc hholds
  by_contra hwriting
  rw [Call.holdsFile_of_writing hwriting] at hother
  cases hother

namespace Lines

variable {file : Bytes} {s t : State} {log : List (Nat × Record)}
  {part : Bytes}

/-- A step that neither begins nor continues nor completes a line. -/
theorem congr_set (h : Lines file s log part) {c : Nat} {old new : Call}
    (hc : s.calls[c]? = some old) (hcalls : t.calls = s.calls.set c new)
    (htable : t.index.table = s.index.table)
    (hlanded : new.landed = old.landed)
    (hwriting : new.writing = old.writing) : Lines file t log part where
  table := htable.trans h.table
  landed := hcalls ▸ h.landed.set hc new hlanded
  partOf := by
    rw [hcalls, filterMap_congr_map (map_set_of_eq _ hc hwriting)]
    exact h.partOf

theorem begin (h : Lines file s log part) {call : Call}
    (hlanded : call.landed = none) (hwriting : call.writing = none) :
    Lines file (s.begin call) log part where
  table := h.table
  landed := h.landed.concat hlanded
  partOf := by
    show PartOf _ part ((s.calls ++ [call]).filterMap Call.writing)
    rw [List.filterMap_append, List.filterMap_cons_none hwriting,
      List.filterMap_nil, List.append_nil]
    exact h.partOf

/-- **What a move leaves in the file.** -/
theorem move (h : Lines file s log part)
    (hone : s.calls.countP Call.holdsFile ≤ 1) {c : Nat} {old new : Call}
    {y : Index} {effect : Option Effect} (hc : s.calls[c]? = some old)
    (hmove : Moves s.index old new y effect)
    (hone' : (s.calls.set c new).countP Call.holdsFile ≤ 1)
    (htable : t.index = y) (hcalls : t.calls = s.calls.set c new) :
    ∃ log' part', Lines file t log' part' := by
  have hset : (s.calls.set c new)[c]? = some new := by
    rw [getElem?_set_eq hc, if_pos rfl]
  have hwriting := filterMap_set_perm Call.writing hc new
  have hlanded : new.landed = old.landed →
      Records Call.landed t.calls (landings file log) := fun hsame => by
    rw [hcalls]
    exact h.landed.set hc new hsame
  rw [← hcalls] at hset hone' hwriting
  have hpart := h.partOf
  cases hmove with
  | tells id value =>
      rw [filterMap_writing hone hc rfl] at hpart
      obtain rfl : part = [] := hpart
      have hend : s.index.table = file ++ wholeLines log :=
        h.table.trans (List.append_nil _)
      refine ⟨log, [], ?_, hlanded rfl, ?_⟩
      · rw [htable, h.table]
      · rw [filterMap_writing hone' hset rfl]
        exact ⟨congrArg List.length hend, rfl⟩
  | puts id value currenOffset piece left =>
      rw [filterMap_writing hone hc rfl] at hpart
      obtain ⟨hstart, hline⟩ : currenOffset = (file ++ wholeLines log).length ∧
        part ++ (piece ++ left) = Record.line ⟨id, value⟩ := hpart
      refine ⟨log, part ++ piece, ?_, hlanded rfl, ?_⟩
      · rw [htable]
        show s.index.table ++ piece = _
        rw [h.table, List.append_assoc]
      · rw [filterMap_writing hone' hset rfl]
        exact ⟨hstart, (List.append_assoc _ _ _).trans hline⟩
  | flushes id value currenOffset =>
      rw [filterMap_writing hone hc rfl] at hpart hwriting
      obtain ⟨rfl, hline⟩ : currenOffset = (file ++ wholeLines log).length ∧
        part ++ [] = Record.line ⟨id, value⟩ := hpart
      refine ⟨log ++ [(c, ⟨id, value⟩)], [], ?_, ?_, ?_⟩
      · rw [htable, h.table, wholeLines_concat, ← hline]
        simp
      · rw [hcalls, landings_concat]
        exact h.landed.set_concat hc rfl rfl
      · have hlength := hwriting.length_eq
        rw [List.length_append, List.length_append] at hlength
        have hnone : (t.calls.filterMap Call.writing).length = 0 :=
          Nat.add_left_cancel (hlength : 1 + _ = 1 + 0)
        rw [List.eq_nil_of_length_eq_zero hnone]
        rfl
  | nexts minId limit it results seen uninit _ _ =>
      obtain ⟨it', results', hafter⟩ :=
        Call.afterNext_eq minId limit (it.see seen) results uninit
      rw [hafter] at hcalls
      exact ⟨log, part, h.congr_set hc hcalls (by rw [htable]) rfl rfl⟩
  | _ =>
      exact ⟨log, part, h.congr_set hc hcalls (by rw [htable]) rfl rfl⟩

end Lines

/-- **The pieces of different lines stay apart.** -/
theorem TableInvariant.step {file : Bytes} {s t : State} {a : Action}
    (h : TableInvariant file s) (hstep : Step s a t) :
    TableInvariant file t := by
  have hone := hstep.holders_le h.holders_le
  obtain ⟨log, part, hlines⟩ := h.lines
  refine ⟨hone, ?_⟩
  cases hstep with
  | insert id value => exact ⟨log, part, hlines.begin rfl rfl⟩
  | query minId limit => exact ⟨log, part, hlines.begin rfl rfl⟩
  | move c old new index effect hc hmove _ =>
      exact hlines.move h.holders_le hc hmove hone rfl rfl

end GoPrep.Ports.IndexAndIterator
