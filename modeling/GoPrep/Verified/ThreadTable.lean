import Mathlib.Algebra.Ring.Nat
import Mathlib.Data.List.Induction
import Mathlib.Data.List.Nodup
import Mathlib.Data.List.Count

/-!
# Tables of threads, and logs of their results

An interleaving model keeps one entry per concurrent call in a list, indexed
by the order in which the calls began.  A step rewrites one entry (`set`),
wakes sleepers (`map` for all, `NotifyOne` for one) or begins a call
(`++ [·]`).  What such a step leaves alone is stated through an observation
`f` of entries: `ts'.map f = ts.map f`.

A mutex is a field naming the entry that holds it; `OwnedBy` says that the
field and the entries agree, which is mutual exclusion.

A ghost log lists, in the order of their linearization points, the calls that
have produced a result.  `Records` ties such a log to the table: the log
contains a call with a value exactly when the call's entry carries that value,
and it contains no call twice.
-/

namespace GoPrep.Verified.ThreadTable

variable {τ β : Type*}

/-! ## Entries -/

theorem lt_length_of_getElem? {ts : List τ} {i : Nat} {t : τ}
    (h : ts[i]? = some t) : i < ts.length :=
  (List.getElem?_eq_some_iff.mp h).1

/-- Reading an entry of a rewritten table. -/
theorem getElem?_set_eq {ts : List τ} {i : Nat} {old : τ}
    (h : ts[i]? = some old) (new : τ) (j : Nat) :
    (ts.set i new)[j]? = if i = j then some new else ts[j]? := by
  rw [List.getElem?_set]
  by_cases hij : i = j
  · rw [if_pos hij, if_pos hij, if_pos (lt_length_of_getElem? h)]
  · rw [if_neg hij, if_neg hij]

/-- An entry other than the rewritten one stays. -/
theorem getElem?_set_of_ne {ts : List τ} {i j : Nat} {old t : τ}
    (hold : ts[i]? = some old) (ht : ts[j]? = some t) (hne : old ≠ t)
    (new : τ) : (ts.set i new)[j]? = some t := by
  rw [getElem?_set_eq hold, if_neg, ht]
  rintro rfl
  exact hne (Option.some.inj (hold.symm.trans ht))

/-- Reading an entry of a table that a call has joined. -/
theorem getElem?_concat_eq_some {ts : List τ} {new t : τ} {j : Nat} :
    (ts ++ [new])[j]? = some t ↔
      ts[j]? = some t ∨ (j = ts.length ∧ new = t) := by
  rcases Nat.lt_trichotomy j ts.length with hlt | rfl | hgt
  · have hne : j ≠ ts.length := by omega
    rw [List.getElem?_append_left hlt]
    simp [hne]
  · simp
  · have hnone : ts[j]? = none := List.getElem?_eq_none (by omega)
    have hnone' : (ts ++ [new])[j]? = none :=
      List.getElem?_eq_none (by simp; omega)
    have hne : j ≠ ts.length := by omega
    simp [hnone, hnone', hne]

theorem forall_mem_set {P : τ → Prop} {ts : List τ} {i : Nat} {new : τ}
    (h : ∀ t ∈ ts, P t) (hnew : P new) : ∀ t ∈ ts.set i new, P t := by
  intro t ht
  rcases List.mem_or_eq_of_mem_set ht with ht | rfl
  · exact h t ht
  · exact hnew

theorem forall_mem_concat {P : τ → Prop} {ts : List τ} {new : τ}
    (h : ∀ t ∈ ts, P t) (hnew : P new) : ∀ t ∈ ts ++ [new], P t := by
  intro t ht
  rcases List.mem_append.mp ht with ht | ht
  · exact h t ht
  · exact List.mem_singleton.mp ht ▸ hnew

theorem forall_mem_map {P : τ → Prop} {ts : List τ} {wake : τ → τ}
    (h : ∀ t ∈ ts, P t) (hwake : ∀ t, P t → P (wake t)) :
    ∀ t ∈ ts.map wake, P t := by
  intro t ht
  obtain ⟨t', ht', rfl⟩ := List.mem_map.mp ht
  exact hwake t' (h t' ht')

theorem forall_mem_ite_map {P : τ → Prop} {ts : List τ} {wake : τ → τ}
    (h : ∀ t ∈ ts, P t) (hwake : ∀ t, P t → P (wake t)) (all : Bool) :
    ∀ t ∈ (if all then ts.map wake else ts), P t := by
  cases all with
  | false => exact h
  | true => exact forall_mem_map h hwake

/-! ## Waking one sleeper -/

/-- `notify_one`: some sleeper wakes, unless there is none. -/
inductive NotifyOne (asleep : τ → Bool) (wake : τ → τ) (ts : List τ) :
    List τ → Prop
  | nobody : (∀ t ∈ ts, asleep t = false) → NotifyOne asleep wake ts ts
  | one (i : Nat) (t : τ) : ts[i]? = some t → asleep t = true →
      NotifyOne asleep wake ts (ts.set i (wake t))

/-- `notify_one` can always be carried out. -/
theorem exists_notifyOne (asleep : τ → Bool) (wake : τ → τ) (ts : List τ) :
    ∃ ts', NotifyOne asleep wake ts ts' := by
  by_cases hsleeper : ∃ t ∈ ts, asleep t = true
  · obtain ⟨t, ht, hasleep⟩ := hsleeper
    obtain ⟨i, hi⟩ := List.mem_iff_getElem?.mp ht
    exact ⟨_, .one i t hi hasleep⟩
  · push Not at hsleeper
    exact ⟨ts, .nobody fun t ht => by simpa using hsleeper t ht⟩

/-! ## Observations that a step leaves alone -/

theorem map_set_of_eq (f : τ → β) {ts : List τ} {i : Nat} {old new : τ}
    (h : ts[i]? = some old) (heq : f new = f old) :
    (ts.set i new).map f = ts.map f := by
  apply List.ext_getElem?
  intro j
  rw [List.getElem?_map, List.getElem?_map, getElem?_set_eq h]
  by_cases hij : i = j
  · subst hij
    rw [if_pos rfl, h, Option.map_some, Option.map_some, heq]
  · rw [if_neg hij]

theorem map_map_of_eq (f : τ → β) {wake : τ → τ}
    (hwake : ∀ t, f (wake t) = f t) (ts : List τ) :
    (ts.map wake).map f = ts.map f := by
  rw [List.map_map]
  exact List.map_congr_left fun t _ => hwake t

/-- A step that may wake all sleepers besides. -/
theorem map_ite_map_of_eq (f : τ → β) {wake : τ → τ}
    (hwake : ∀ t, f (wake t) = f t) (all : Bool) (ts : List τ) :
    (if all then ts.map wake else ts).map f = ts.map f := by
  cases all with
  | false => rfl
  | true => exact map_map_of_eq f hwake ts

theorem NotifyOne.map_of_eq (f : τ → β) {asleep : τ → Bool} {wake : τ → τ}
    (hwake : ∀ t, f (wake t) = f t) {ts ts' : List τ}
    (h : NotifyOne asleep wake ts ts') : ts'.map f = ts.map f := by
  cases h with
  | nobody _ => rfl
  | one i t ht _ => exact map_set_of_eq f ht (hwake t)

theorem countP_congr_map {p : τ → Bool} {ts ts' : List τ}
    (heq : ts'.map p = ts.map p) : ts'.countP p = ts.countP p := by
  have hcount := congrArg (List.countP id) heq
  rwa [List.countP_map, List.countP_map, Function.id_comp] at hcount

theorem forall_mem_congr_map {P : τ → Prop} {ts ts' : List τ}
    (heq : ts'.map P = ts.map P) (h : ∀ t ∈ ts, P t) : ∀ t ∈ ts', P t := by
  intro t ht
  have hmem : P t ∈ ts'.map P := List.mem_map_of_mem ht
  rw [heq] at hmem
  obtain ⟨t', ht', hP⟩ := List.mem_map.mp hmem
  exact hP ▸ h t' ht'

/-- Rewriting an entry moves a sum by what the entry contributes. -/
theorem sum_map_set (f : τ → Nat) {ts : List τ} {i : Nat} {old : τ}
    (h : ts[i]? = some old) (new : τ) :
    ((ts.set i new).map f).sum + f old = (ts.map f).sum + f new := by
  induction ts generalizing i with
  | nil => simp at h
  | cons t ts ih =>
      cases i with
      | zero =>
          obtain rfl : t = old := by simpa using h
          simp only [List.set_cons_zero, List.map_cons, List.sum_cons]
          omega
      | succ i =>
          have htail := ih (i := i) (by simpa using h)
          simp only [List.set_cons_succ, List.map_cons, List.sum_cons]
          omega

/-- Waking all sleepers moves a sum by no more than what each may add. -/
theorem sum_map_map_le (f : τ → Nat) {wake : τ → τ} {k : Nat}
    (hwake : ∀ t, f (wake t) ≤ f t + k) (ts : List τ) :
    ((ts.map wake).map f).sum ≤ (ts.map f).sum + k * ts.length := by
  induction ts with
  | nil => simp
  | cons t ts ih =>
      have hfirst := hwake t
      simp only [List.map_cons, List.sum_cons, List.length_cons,
        Nat.mul_add, Nat.mul_one]
      omega

theorem NotifyOne.sum_map_le (f : τ → Nat) {asleep : τ → Bool}
    {wake : τ → τ} {k : Nat} (hwake : ∀ t, f (wake t) ≤ f t + k)
    {ts ts' : List τ} (h : NotifyOne asleep wake ts ts') :
    (ts'.map f).sum ≤ (ts.map f).sum + k := by
  cases h with
  | nobody _ => exact Nat.le_add_right _ _
  | one i t ht _ =>
      have hset := sum_map_set f ht (wake t)
      have hone := hwake t
      omega

theorem countP_eq_sum_map (p : τ → Bool) (ts : List τ) :
    ts.countP p = (ts.map fun t => if p t then 1 else 0).sum := by
  induction ts with
  | nil => rfl
  | cons t ts ih => rw [List.countP_cons, List.map_cons, List.sum_cons, ih,
      Nat.add_comm]

/-- Rewriting an entry moves a count by what the entry contributes. -/
theorem countP_set (p : τ → Bool) {ts : List τ} {i : Nat} {old : τ}
    (h : ts[i]? = some old) (new : τ) :
    (ts.set i new).countP p + (if p old then 1 else 0) =
      ts.countP p + (if p new then 1 else 0) := by
  rw [countP_eq_sum_map, countP_eq_sum_map]
  exact sum_map_set (fun t => if p t then 1 else 0) h new

/-- Counting entries by their indices. -/
theorem length_filter_range (p : τ → Bool) (ts : List τ) :
    ((List.range ts.length).filter fun c => (ts[c]?).any p).length =
      ts.countP p := by
  induction ts with
  | nil => rfl
  | cons t ts ih =>
      rw [List.length_cons, List.range_succ_eq_map, List.filter_cons,
        List.countP_cons, ← ih, List.filter_map, Function.comp_def]
      cases hp : p t <;> simp [hp]

/-- An entry that is counted at most once is in one place. -/
theorem eq_of_countP_le_one {p : τ → Bool} {ts : List τ}
    (hone : ts.countP p ≤ 1) {i j : Nat} {t u : τ} (ht : ts[i]? = some t)
    (hu : ts[j]? = some u) (hpt : p t = true) (hpu : p u = true) : i = j := by
  by_contra hne
  -- both indices are among the at most one that is counted
  have hmem : ∀ {k : Nat} {v : τ}, ts[k]? = some v → p v = true →
      k ∈ (List.range ts.length).filter fun c => (ts[c]?).any p := by
    intro k v hv hpv
    refine List.mem_filter.mpr
      ⟨List.mem_range.mpr (lt_length_of_getElem? hv), ?_⟩
    rw [hv, Option.any_some, hpv]
  have hpair : [i, j].Subperm
      ((List.range ts.length).filter fun c => (ts[c]?).any p) := by
    refine List.subperm_of_subset (by simpa using hne) fun k hk => ?_
    rcases List.mem_cons.mp hk with rfl | hk
    · exact hmem ht hpt
    · obtain rfl := List.mem_singleton.mp hk
      exact hmem hu hpu
  have hle := hpair.length_le
  rw [length_filter_range] at hle
  exact absurd (Nat.le_trans hle hone) (by simp)

theorem filterMap_congr_map {f : τ → Option β} {ts ts' : List τ}
    (heq : ts'.map f = ts.map f) : ts'.filterMap f = ts.filterMap f := by
  have hcollect := congrArg (List.filterMap id) heq
  rwa [List.filterMap_map, List.filterMap_map, Function.id_comp] at hcollect

/-- What only one kind of entry has is had by the one entry of that kind. -/
theorem filterMap_eq_of_countP_le_one {f : τ → Option β} {p : τ → Bool}
    (hf : ∀ t, p t = false → f t = none) {ts : List τ}
    (hone : ts.countP p ≤ 1) {i : Nat} {t : τ} (ht : ts[i]? = some t)
    (hp : p t = true) : ts.filterMap f = (f t).toList := by
  induction ts generalizing i with
  | nil => simp at ht
  | cons u ts ih =>
      rw [List.countP_cons] at hone
      cases i with
      | zero =>
          obtain rfl : u = t := by simpa using ht
          rw [if_pos hp] at hone
          have hnone : ∀ v ∈ ts, f v = none := fun v hv =>
            hf v (by simpa using List.countP_eq_zero.mp (by omega) v hv)
          have hrest : ts.filterMap f = [] :=
            List.filterMap_eq_nil_iff.mpr hnone
          cases hfu : f u with
          | none => rw [List.filterMap_cons_none hfu, hrest]; rfl
          | some b => rw [List.filterMap_cons_some hfu, hrest]; rfl
      | succ i =>
          have hi : ts[i]? = some t := by simpa using ht
          have hpos : 0 < ts.countP p :=
            List.countP_pos_iff.mpr ⟨t, List.mem_of_getElem? hi, hp⟩
          have hfu : f u = none := hf u (by
            cases hpu : p u with
            | false => rfl
            | true => rw [if_pos hpu] at hone; omega)
          rw [List.filterMap_cons_none hfu]
          exact ih (by omega) hi

/-- Rewriting an entry moves a collection by what the entry contributes. -/
theorem filterMap_set_perm (f : τ → Option β) {ts : List τ} {i : Nat}
    {old : τ} (h : ts[i]? = some old) (new : τ) :
    ((f old).toList ++ (ts.set i new).filterMap f).Perm
      ((f new).toList ++ ts.filterMap f) := by
  induction ts generalizing i with
  | nil => simp at h
  | cons t ts ih =>
      have hcons : ∀ t (ts : List τ), (t :: ts).filterMap f =
          (f t).toList ++ ts.filterMap f := by
        intro t ts
        rw [List.filterMap_cons]
        cases f t <;> rfl
      cases i with
      | zero =>
          obtain rfl : t = old := by simpa using h
          rw [List.set_cons_zero, hcons, hcons]
          exact List.perm_append_comm_assoc _ _ _
      | succ i =>
          have htail := ih (i := i) (by simpa using h)
          rw [List.set_cons_succ, hcons, hcons]
          exact ((List.perm_append_comm_assoc _ _ _).trans
            (htail.append_left _)).trans (List.perm_append_comm_assoc _ _ _)

/-! ## Mutexes -/

/-- The entries that hold the mutex are exactly the one `owner` names. -/
def OwnedBy (holds : τ → Bool) (ts : List τ) (owner : Option Nat) : Prop :=
  ∀ c, (ts.map holds)[c]? = some true ↔ owner = some c

namespace OwnedBy

variable {holds : τ → Bool} {ts ts' : List τ} {owner : Option Nat}

theorem nil (holds : τ → Bool) : OwnedBy holds [] none := by
  intro c
  simp

theorem congr (h : OwnedBy holds ts owner)
    (heq : ts'.map holds = ts.map holds) : OwnedBy holds ts' owner := by
  intro c
  rw [heq]
  exact h c

theorem owner_of_holds (h : OwnedBy holds ts owner) {i : Nat} {t : τ}
    (ht : ts[i]? = some t) (hholds : holds t = true) : owner = some i := by
  apply (h i).mp
  rw [List.getElem?_map, ht, Option.map_some, hholds]

/-- **Mutual exclusion.** -/
theorem excludes (h : OwnedBy holds ts owner) {i j : Nat} {t u : τ}
    (ht : ts[i]? = some t) (hu : ts[j]? = some u) (hne : j ≠ i)
    (hholds : holds t = true) : holds u = false := by
  cases hother : holds u with
  | false => rfl
  | true =>
      have hsame := (h.owner_of_holds hu hother).symm.trans
        (h.owner_of_holds ht hholds)
      exact absurd (Option.some.inj hsame) hne

theorem concat (h : OwnedBy holds ts owner) {new : τ}
    (hnew : holds new = false) : OwnedBy holds (ts ++ [new]) owner := by
  intro c
  rw [← h c, List.map_append, List.map_singleton, getElem?_concat_eq_some,
    hnew]
  simp

/-- Rewriting an entry beside which no other holds the mutex. -/
theorem set_alone {i : Nat} {old : τ} (hold : ts[i]? = some old)
    (halone : ∀ c, (ts.map holds)[c]? = some true → i = c) (new : τ) :
    OwnedBy holds (ts.set i new) (if holds new then some i else none) := by
  intro c
  rw [List.getElem?_map, getElem?_set_eq hold]
  by_cases hic : i = c
  · subst hic
    cases hnew : holds new <;> simp [hnew]
  · have hother := mt (halone c) hic
    rw [List.getElem?_map] at hother
    rw [if_neg hic]
    cases holds new <;> simp [hic, hother]

theorem acquire (h : OwnedBy holds ts none) {i : Nat} {old new : τ}
    (hold : ts[i]? = some old) (hnew : holds new = true) :
    OwnedBy holds (ts.set i new) (some i) := by
  have hset := set_alone hold (fun c hc => by cases (h c).mp hc) new
  rwa [hnew, if_pos rfl] at hset

theorem release (h : OwnedBy holds ts owner) {i : Nat} {old new : τ}
    (hold : ts[i]? = some old) (hholds : holds old = true)
    (hnew : holds new = false) :
    OwnedBy holds (ts.set i new) none := by
  have howner := h.owner_of_holds hold hholds
  have hset := set_alone hold
    (fun c hc => Option.some.inj (howner.symm.trans ((h c).mp hc))) new
  rwa [hnew, if_neg Bool.false_ne_true] at hset

/-- A step of the entry at `i`, from one that did or did not hold the mutex to
one that does or does not: it leaves the mutex alone, takes it or gives it
up. -/
inductive Passes (i : Nat) (owner : Option Nat) (old : Bool) :
    Option Nat → Bool → Prop
  | keeps : Passes i owner old owner old
  | takes : owner = none → Passes i owner old (some i) true
  | gives : old = true → Passes i owner old none false

theorem passes (h : OwnedBy holds ts owner) {i : Nat} {old new : τ}
    {owner' : Option Nat} (hold : ts[i]? = some old)
    (hpasses : Passes i owner (holds old) owner' (holds new)) :
    OwnedBy holds (ts.set i new) owner' := by
  generalize hnew : holds new = after at hpasses
  cases hpasses with
  | keeps => exact h.congr (map_set_of_eq holds hold hnew)
  | takes hfree => exact acquire (hfree ▸ h) hold hnew
  | gives hholds => exact h.release hold hholds hnew

/-- Where each key has a mutex: the step locks the one of `k`. -/
theorem passes_lock {κ : Type*} [DecidableEq κ] {m : κ → Option Nat}
    {old new : κ → Bool} {i : Nat} {k : κ} (hfree : m k = none)
    (hnew : new k = true) (hothers : ∀ l, l ≠ k → new l = old l) (l : κ) :
    Passes i (m l) (old l) (Function.update m k (some i) l) (new l) := by
  by_cases hlk : l = k
  · subst hlk
    rw [Function.update_self, hnew]
    exact .takes hfree
  · rw [Function.update_of_ne hlk, hothers l hlk]
    exact .keeps

/-- The step unlocks the mutex of `k`. -/
theorem passes_unlock {κ : Type*} [DecidableEq κ] {m : κ → Option Nat}
    {old new : κ → Bool} {i : Nat} {k : κ} (hold : old k = true)
    (hnew : new k = false) (hothers : ∀ l, l ≠ k → new l = old l) (l : κ) :
    Passes i (m l) (old l) (Function.update m k none l) (new l) := by
  by_cases hlk : l = k
  · subst hlk
    rw [Function.update_self, hnew]
    exact .gives hold
  · rw [Function.update_of_ne hlk, hothers l hlk]
    exact .keeps

/-- The step leaves every mutex alone. -/
theorem passes_of_eq {κ : Type*} {m : κ → Option Nat} {old new : κ → Bool}
    {i : Nat} (heq : ∀ l, new l = old l) (l : κ) :
    Passes i (m l) (old l) (m l) (new l) := by
  rw [heq]
  exact .keeps

end OwnedBy

/-! ## Logs of results -/

/-- `log` lists exactly the calls with a result, each once, with it. -/
structure Records (result : τ → Option β) (ts : List τ)
    (log : List (Nat × β)) : Prop where
  mem_iff : ∀ c v, (c, v) ∈ log ↔ (ts.map result)[c]? = some (some v)
  nodup : (log.map Prod.fst).Nodup

namespace Records

variable {result : τ → Option β} {ts ts' : List τ} {log : List (Nat × β)}

theorem nil (result : τ → Option β) : Records result [] [] :=
  ⟨by simp, by simp⟩

/-- A call's entry carries the value the log gives it. -/
theorem mem_iff_result (h : Records result ts log) {c : Nat} {t : τ}
    (ht : ts[c]? = some t) {v : β} : (c, v) ∈ log ↔ result t = some v := by
  rw [h.mem_iff, List.getElem?_map, ht, Option.map_some, Option.some.injEq]

/-- A step that leaves every result as it was. -/
theorem congr (h : Records result ts log) {result' : τ → Option β}
    (heq : ts'.map result' = ts.map result) : Records result' ts' log := by
  refine ⟨fun c v => ?_, h.nodup⟩
  rw [h.mem_iff, heq]

/-- A call that begins has no result. -/
theorem concat (h : Records result ts log) {new : τ}
    (hnew : result new = none) : Records result (ts ++ [new]) log := by
  refine ⟨fun c v => ?_, h.nodup⟩
  rw [h.mem_iff, List.map_append, List.map_singleton,
    getElem?_concat_eq_some, hnew]
  simp

theorem set (h : Records result ts log) {i : Nat} {old : τ}
    (hold : ts[i]? = some old) (new : τ) (heq : result new = result old) :
    Records result (ts.set i new) log :=
  h.congr (map_set_of_eq result hold heq)

theorem map (h : Records result ts log) {wake : τ → τ}
    (hwake : ∀ t, result (wake t) = result t) :
    Records result (ts.map wake) log :=
  h.congr (map_map_of_eq result hwake ts)

/-- A step by which a call produces its result appends it to the log. -/
theorem set_concat (h : Records result ts log) {i : Nat} {old new : τ} {v : β}
    (hold : ts[i]? = some old) (hnone : result old = none)
    (hnew : result new = some v) :
    Records result (ts.set i new) (log ++ [(i, v)]) := by
  have habsent : ∀ w, (i, w) ∉ log := fun w hmem => by
    rw [h.mem_iff_result hold, hnone] at hmem
    cases hmem
  constructor
  · intro c w
    rw [List.mem_append, h.mem_iff, List.getElem?_map, List.getElem?_map,
      getElem?_set_eq hold]
    by_cases hic : i = c
    · subst hic
      simp [hold, hnone, hnew, eq_comm]
    · simp [hic, Ne.symm hic]
  · rw [List.map_append, List.map_singleton, ← List.concat_eq_append]
    refine List.Nodup.concat ?_ h.nodup
    intro hmem
    obtain ⟨⟨c, w⟩, hcw, rfl⟩ := List.mem_map.mp hmem
    exact habsent w hcw

/-- A part of each result, for the calls whose result has it. -/
theorem filterMap {γ : Type*} (h : Records result ts log)
    (part : β → Option γ) :
    Records (fun t => (result t).bind part) ts
      (log.filterMap fun entry =>
        (part entry.2).map fun w => (entry.1, w)) := by
  constructor
  · intro c w
    rw [List.mem_filterMap, List.getElem?_map]
    constructor
    · rintro ⟨⟨d, v⟩, hmem, hpart⟩
      obtain ⟨w', hw', hentry⟩ := Option.map_eq_some_iff.mp hpart
      obtain ⟨rfl, rfl⟩ := Prod.mk.inj hentry
      rw [h.mem_iff, List.getElem?_map, Option.map_eq_some_iff] at hmem
      obtain ⟨t, ht, hresult⟩ := hmem
      rw [ht, Option.map_some, hresult]
      exact congrArg some hw'
    · intro hc
      obtain ⟨t, ht, hbind⟩ := Option.map_eq_some_iff.mp hc
      obtain ⟨v, hv, hw⟩ := Option.bind_eq_some_iff.mp hbind
      exact ⟨(c, v), (h.mem_iff_result ht).mpr hv, by rw [hw, Option.map_some]⟩
  · refine h.nodup.sublist ?_
    clear h
    induction log with
    | nil => exact List.Sublist.refl _
    | cons entry log ih =>
        rw [List.map_cons, List.filterMap_cons]
        cases part entry.2 with
        | none => exact ih.cons _
        | some w => exact ih.cons_cons _

/-- The results in the log are those of the calls. -/
theorem perm_filterMap (h : Records result ts log) :
    (log.map Prod.snd).Perm (ts.filterMap result) := by
  induction ts using List.reverseRecOn generalizing log with
  | nil =>
      have hempty : log = [] := List.eq_nil_iff_forall_not_mem.mpr
        fun entry hentry => by simpa using (h.mem_iff _ _).mp hentry
      rw [hempty]
      exact .nil
  | append_singleton ts t ih =>
      rw [List.filterMap_append]
      cases ht : result t with
      | none =>
          have hrest : Records result ts log := by
            refine ⟨fun c v => ?_, h.nodup⟩
            rw [h.mem_iff, List.map_append, List.map_singleton,
              getElem?_concat_eq_some, ht]
            simp
          rw [List.filterMap_cons_none ht, List.filterMap_nil,
            List.append_nil]
          exact ih hrest
      | some v =>
          have hlast : (ts ++ [t])[ts.length]? = some t :=
            List.getElem?_concat_length
          obtain ⟨before, after, rfl⟩ :=
            List.append_of_mem ((h.mem_iff_result hlast).mpr ht)
          have hnodup := h.nodup
          rw [List.map_append, List.map_cons, List.nodup_middle,
            List.nodup_cons, ← List.map_append] at hnodup
          have hrest : Records result ts (before ++ after) := by
            refine ⟨fun c w => ?_, hnodup.2⟩
            by_cases hc : c = ts.length
            · subst hc
              refine iff_of_false (fun hmem => hnodup.1 ?_) (by simp)
              exact List.mem_map.mpr ⟨_, hmem, rfl⟩
            · have hall := h.mem_iff c w
              rw [List.map_append, List.map_singleton,
                getElem?_concat_eq_some, List.length_map] at hall
              simpa [hc] using hall
          have hperm := ih hrest
          rw [List.map_append] at hperm
          rw [List.filterMap_cons_some ht, List.filterMap_nil,
            List.map_append, List.map_cons]
          exact List.perm_middle.trans
            ((hperm.cons v).trans (List.perm_append_singleton v _).symm)

/-- The log is as long as there are calls with a result. -/
theorem length_eq (h : Records result ts log) :
    log.length = ts.countP fun t => (result t).isSome := by
  rw [← List.length_map Prod.snd, h.perm_filterMap.length_eq,
    List.length_filterMap_eq_countP]

theorem lt_length (h : Records result ts log) {c : Nat} {v : β}
    (hmem : (c, v) ∈ log) : c < ts.length := by
  rw [h.mem_iff] at hmem
  simpa using lt_length_of_getElem? hmem

end Records

end GoPrep.Verified.ThreadTable
