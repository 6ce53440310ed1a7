import Mathlib.Data.List.Perm.Basic
import Mathlib.Data.List.Count
import Mathlib.Data.List.Nodup

/-!
# Joins of two lists

The relational join as a list: every left row in order, and under it every
right row that qualifies, in order.  `thetaJoin` takes any condition on two
rows, `equiJoin` is the equality join on a key.  Concrete join algorithms emit
the same pairs in other orders, so the common specification is this list up
to permutation.  The lemmas say how the join reacts to reordering, splitting
and exchanging its two sides, and to cutting both sides into buckets by a
function of the key.

Nothing here knows what a row is: `emit` builds the output row, `kl` and `kr`
read the keys.

## Main results

* `equiJoin_perm` — the join up to permutation only sees the multisets of
  its inputs.
* `equiJoin_swap_perm` — exchanging the sides exchanges the output rows.
* `equiJoin_buckets_perm` — joining bucket by bucket loses and invents
  nothing, whatever function of the key chooses the bucket.
* `count_thetaJoin`, `count_equiJoin` — the exact multiplicity of every output
  row.
-/

namespace GoPrep.Verified.EquiJoin

variable {α β γ K : Type*} [DecidableEq K]

/-- The join on an arbitrary condition. -/
def thetaJoin (emit : α → β → γ) (on : α → β → Bool) (l : List α)
    (r : List β) : List γ :=
  l.flatMap fun a => (r.filter (on a)).map (emit a)

/-- The rows of `r` that agree with the key `k`, in order. -/
def matching (kr : β → K) (r : List β) (k : K) : List β :=
  r.filter fun b => decide (kr b = k)

/-- The equality join: left rows outermost, each with its matches in order. -/
def equiJoin (emit : α → β → γ) (kl : α → K) (kr : β → K)
    (l : List α) (r : List β) : List γ :=
  l.flatMap fun a => (matching kr r (kl a)).map (emit a)

variable (emit : α → β → γ) (on : α → β → Bool) (kl : α → K) (kr : β → K)

theorem equiJoin_eq_thetaJoin (l : List α) (r : List β) :
    equiJoin emit kl kr l r =
      thetaJoin emit (fun a b => decide (kr b = kl a)) l r := rfl

omit [DecidableEq K] in
/-- Two nested loops that append the pairs that qualify. -/
theorem foldl_foldl_eq_thetaJoin (l : List α) (r : List β)
    (result : List γ) :
    l.foldl (fun result a => r.foldl (fun result b =>
        if on a b then result ++ [emit a b] else result) result) result =
      result ++ thetaJoin emit on l r := by
  have hinner : ∀ (a : α) (r : List β) (result : List γ),
      r.foldl (fun result b =>
          if on a b then result ++ [emit a b] else result) result =
        result ++ (r.filter (on a)).map (emit a) := by
    intro a r
    induction r with
    | nil => intro result; simp
    | cons b r ih =>
        intro result
        rw [List.foldl_cons, ih]
        by_cases h : on a b <;> simp [h]
  induction l generalizing result with
  | nil => simp [thetaJoin]
  | cons a l ih =>
      rw [List.foldl_cons, hinner, ih, List.append_assoc]
      rfl

omit [DecidableEq K] in
@[simp] theorem thetaJoin_nil_left (r : List β) :
    thetaJoin emit on [] r = [] := rfl

omit [DecidableEq K] in
@[simp] theorem thetaJoin_nil_right (l : List α) :
    thetaJoin emit on l [] = [] := by
  simp [thetaJoin]

omit [DecidableEq K] in
theorem thetaJoin_append_left (l m : List α) (r : List β) :
    thetaJoin emit on (l ++ m) r =
      thetaJoin emit on l r ++ thetaJoin emit on m r := by
  simp [thetaJoin]

omit [DecidableEq K] in
/-- Splitting the right side splits the join, up to order. -/
theorem thetaJoin_append_right_perm (l : List α) (r s : List β) :
    (thetaJoin emit on l (r ++ s)).Perm
      (thetaJoin emit on l r ++ thetaJoin emit on l s) := by
  have hsplit : thetaJoin emit on l (r ++ s) =
      l.flatMap fun a => (r.filter (on a)).map (emit a) ++
        (s.filter (on a)).map (emit a) := by
    simp only [thetaJoin, List.filter_append, List.map_append]
  rw [hsplit]
  exact (List.flatMap_append_perm l _ _).symm

@[simp] theorem matching_nil (k : K) : matching kr [] k = [] := rfl

theorem matching_cons (b : β) (r : List β) (k : K) :
    matching kr (b :: r) k =
      if kr b = k then b :: matching kr r k else matching kr r k := by
  by_cases h : kr b = k <;> simp [matching, h]

theorem mem_matching {r : List β} {k : K} {b : β} :
    b ∈ matching kr r k ↔ b ∈ r ∧ kr b = k := by
  simp [matching]

theorem matching_append (r s : List β) (k : K) :
    matching kr (r ++ s) k = matching kr r k ++ matching kr s k := by
  simp [matching]

@[simp] theorem equiJoin_nil_left (r : List β) :
    equiJoin emit kl kr [] r = [] := rfl

@[simp] theorem equiJoin_nil_right (l : List α) :
    equiJoin emit kl kr l [] = [] := by
  simp [equiJoin]

@[simp] theorem equiJoin_cons_left (a : α) (l : List α) (r : List β) :
    equiJoin emit kl kr (a :: l) r =
      (matching kr r (kl a)).map (emit a) ++ equiJoin emit kl kr l r := rfl

theorem equiJoin_append_left (l m : List α) (r : List β) :
    equiJoin emit kl kr (l ++ m) r =
      equiJoin emit kl kr l r ++ equiJoin emit kl kr m r := by
  simp [equiJoin]

/-! ## Reordering and splitting -/

/-- Any enumeration of each left row's matches gives the join up to order. -/
theorem equiJoin_probe_perm (l : List α) (r : List β) (probe : α → List β)
    (hprobe : ∀ a ∈ l, (probe a).Perm (matching kr r (kl a))) :
    (l.flatMap fun a => (probe a).map (emit a)).Perm
      (equiJoin emit kl kr l r) :=
  List.Perm.flatMap_left l fun a ha => (hprobe a ha).map (emit a)

/-- The join up to permutation depends on its inputs only as multisets. -/
theorem equiJoin_perm {l l' : List α} {r r' : List β}
    (hl : l.Perm l') (hr : r.Perm r') :
    (equiJoin emit kl kr l r).Perm (equiJoin emit kl kr l' r') :=
  List.Perm.flatMap hl fun _ _ => (hr.filter _).map _

/-- Splitting the right side splits the join, up to order. -/
theorem equiJoin_append_right_perm (l : List α) (r s : List β) :
    (equiJoin emit kl kr l (r ++ s)).Perm
      (equiJoin emit kl kr l r ++ equiJoin emit kl kr l s) :=
  thetaJoin_append_right_perm emit _ l r s

/-- A one-row right side keeps exactly the left rows of that key. -/
theorem equiJoin_singleton_right (l : List α) (b : β) :
    equiJoin emit kl kr l [b] =
      (matching kl l (kr b)).map fun a => emit a b := by
  induction l with
  | nil => rfl
  | cons a l ih =>
      rw [equiJoin_cons_left, ih, matching_cons, matching_cons]
      by_cases h : kl a = kr b
      · simp [h]
      · simp [h, Ne.symm h]

/-- Exchanging the two sides yields the same pairs. -/
theorem equiJoin_swap_perm (l : List α) (r : List β) :
    (equiJoin emit kl kr l r).Perm
      (equiJoin (fun b a => emit a b) kr kl r l) := by
  induction r with
  | nil => simp
  | cons b r ih =>
      have hhead := equiJoin_append_right_perm emit kl kr l [b] r
      rw [equiJoin_singleton_right] at hhead
      exact hhead.trans (ih.append_left _)

/-! ## Runs of one key -/

/-- Right rows that agree with no left row can be dropped. -/
theorem equiJoin_append_right_of_ne {l : List α} {r : List β} (s : List β)
    (h : ∀ a ∈ l, ∀ b ∈ r, kr b ≠ kl a) :
    equiJoin emit kl kr l (r ++ s) = equiJoin emit kl kr l s := by
  apply List.flatMap_congr
  intro a ha
  have hnone : matching kr r (kl a) = [] :=
    List.filter_eq_nil_iff.mpr fun b hb => by simpa using h a ha b hb
  rw [matching_append, hnone, List.nil_append]

/-- Left rows that agree with no right row emit nothing. -/
theorem equiJoin_eq_nil {l : List α} {r : List β}
    (h : ∀ a ∈ l, ∀ b ∈ r, kr b ≠ kl a) : equiJoin emit kl kr l r = [] := by
  have hnil := equiJoin_append_right_of_ne emit kl kr [] h
  rwa [List.append_nil, equiJoin_nil_right] at hnil

/-- A left run of one key against a right run of that key, with the key gone
from both rests: the cross product of the runs, then the join of the rests. -/
theorem equiJoin_runs {l l' : List α} {r r' : List β} {k : K}
    (hl : ∀ a ∈ l, kl a = k) (hr : ∀ b ∈ r, kr b = k)
    (hl' : ∀ a ∈ l', kl a ≠ k) (hr' : ∀ b ∈ r', kr b ≠ k) :
    equiJoin emit kl kr (l ++ l') (r ++ r') =
      (l.flatMap fun a => r.map (emit a)) ++ equiJoin emit kl kr l' r' := by
  have hmatch : matching kr (r ++ r') k = r := by
    have hall : matching kr r k = r :=
      List.filter_eq_self.mpr fun b hb => by simpa using hr b hb
    have hnone : matching kr r' k = [] :=
      List.filter_eq_nil_iff.mpr fun b hb => by simpa using hr' b hb
    rw [matching_append, hall, hnone, List.append_nil]
  rw [equiJoin_append_left,
    equiJoin_append_right_of_ne emit kl kr r' (l := l') (r := r)
      fun a ha b hb => hr b hb ▸ (hl' a ha).symm]
  congr 1
  exact List.flatMap_congr fun a ha => by rw [hl a ha, hmatch]

/-! ## Buckets -/

/-- Cutting a list into the `n` buckets of `slot` loses and repeats nothing. -/
theorem buckets_flatMap_perm (n : Nat) (slot : α → Nat) (l : List α)
    (hslot : ∀ a ∈ l, slot a < n) :
    ((List.range n).flatMap fun p => l.filter fun a => decide (slot a = p)).Perm
      l := by
  induction l with
  | nil => simp
  | cons a l ih =>
      have hrest := ih fun x hx => hslot x (List.mem_cons_of_mem a hx)
      have ha : slot a ∈ List.range n :=
        List.mem_range.mpr (hslot a List.mem_cons_self)
      -- bucket by bucket, the new row is a separate one-row contribution
      have hsplit : ∀ p, ((a :: l).filter fun x => decide (slot x = p)) =
          (if slot a = p then [a] else []) ++
            l.filter fun x => decide (slot x = p) := by
        intro p
        by_cases h : slot a = p <;> simp [h]
      have hone : ((List.range n).flatMap fun p =>
          if slot a = p then [a] else []).Perm [a] := by
        have hfilter : ((List.range n).flatMap fun p =>
            if slot a = p then [a] else []) =
            ((List.range n).filter fun p => decide (p = slot a)).map
              fun _ => a := by
          generalize List.range n = ps
          induction ps with
          | nil => rfl
          | cons p ps ihp =>
              rw [List.flatMap_cons, ihp]
              by_cases h : slot a = p
              · simp [h]
              · simp [h, Ne.symm h]
        rw [hfilter, List.filter_eq, List.count_eq_one_of_mem
          List.nodup_range ha]
        simp
      simp only [hsplit]
      exact (List.flatMap_append_perm _ _ _).symm.trans
        (hone.append hrest)

/-- The `n` buckets of a list, in bucket order. -/
def buckets (n : Nat) (slot : α → Nat) (l : List α) : List (List α) :=
  (List.range n).map fun p => l.filter fun a => decide (slot a = p)

@[simp] theorem length_buckets (n : Nat) (slot : α → Nat) (l : List α) :
    (buckets n slot l).length = n := by
  simp [buckets]

theorem buckets_getElem? {n p : Nat} (slot : α → Nat) (l : List α)
    (hp : p < n) :
    (buckets n slot l)[p]? =
      some (l.filter fun a => decide (slot a = p)) := by
  simp [buckets, hp]

theorem buckets_nil (n : Nat) (slot : α → Nat) :
    buckets n slot [] = List.replicate n [] := by
  simp [buckets]

/-- Appending a row to its own bucket is what bucketing the longer list
does. -/
theorem buckets_concat (n : Nat) (slot : α → Nat) (l : List α) (a : α) :
    (buckets n slot l).modify (slot a) (· ++ [a]) =
      buckets n slot (l ++ [a]) := by
  apply List.ext_getElem?
  intro p
  rw [List.getElem?_modify]
  by_cases hp : p < n
  · rw [buckets_getElem? slot l hp, buckets_getElem? slot (l ++ [a]) hp]
    by_cases h : slot a = p <;> simp [h]
  · simp [buckets, Nat.not_lt.mp hp]

/-- **Bucketed join.**  If `slot` sends every key to one of `n` buckets, the
joins of the bucket pairs together are the join of the whole inputs. -/
theorem equiJoin_buckets_perm (n : Nat) (slot : K → Nat)
    (l : List α) (r : List β) (hslot : ∀ a ∈ l, slot (kl a) < n) :
    ((List.range n).flatMap fun p =>
      equiJoin emit kl kr (l.filter fun a => decide (slot (kl a) = p))
        (r.filter fun b => decide (slot (kr b) = p))).Perm
      (equiJoin emit kl kr l r) := by
  -- within a bucket, dropping the other buckets' right rows drops no match
  have hbucket : ∀ p, equiJoin emit kl kr
      (l.filter fun a => decide (slot (kl a) = p))
      (r.filter fun b => decide (slot (kr b) = p)) =
      (l.filter fun a => decide (slot (kl a) = p)).flatMap fun a =>
        (matching kr r (kl a)).map (emit a) := by
    intro p
    apply List.flatMap_congr
    intro a ha
    have hp : slot (kl a) = p := by simpa using (List.mem_filter.mp ha).2
    congr 1
    simp only [matching, List.filter_filter]
    apply List.filter_congr
    intro b _
    by_cases h : kr b = kl a <;> simp [h, hp]
  simp only [hbucket]
  rw [← List.flatMap_assoc]
  exact (buckets_flatMap_perm n (fun a => slot (kl a)) l hslot).flatMap_right _

/-! ## Multiplicities -/

omit [DecidableEq K] in
/-- A pair that qualifies is emitted once per occurrence of either row, and
any other pair never. -/
theorem count_thetaJoin [DecidableEq α] [DecidableEq β] [DecidableEq γ]
    (hemit : Function.Injective2 emit) (l : List α) (r : List β)
    (a : α) (b : β) :
    (thetaJoin emit on l r).count (emit a b) =
      if on a b then l.count a * r.count b else 0 := by
  induction l with
  | nil => simp
  | cons x l ih =>
      have hcons : thetaJoin emit on (x :: l) r =
          (r.filter (on x)).map (emit x) ++ thetaJoin emit on l r := rfl
      rw [hcons, List.count_append, ih]
      have hhead : ((r.filter (on x)).map (emit x)).count (emit a b) =
          if x = a then (if on a b then r.count b else 0) else 0 := by
        by_cases hx : x = a
        · subst hx
          rw [List.count_map_of_injective _ _ (hemit.right x), if_pos rfl]
          by_cases hon : on x b = true
          · rw [if_pos hon, List.count_filter hon]
          · rw [if_neg hon, List.count_eq_zero]
            intro hmem
            exact hon (List.mem_filter.mp hmem).2
        · rw [if_neg hx, List.count_eq_zero]
          intro hmem
          obtain ⟨y, _, hy⟩ := List.mem_map.mp hmem
          exact hx (hemit hy).1
      rw [hhead, List.count_cons]
      by_cases hx : x = a <;> by_cases hon : on a b = true <;>
        simp [hx, hon, Nat.add_mul, Nat.add_comm]

/-- A pair of equal keys is emitted once per occurrence of either row, and a
pair of different keys never. -/
theorem count_equiJoin [DecidableEq α] [DecidableEq β] [DecidableEq γ]
    (hemit : Function.Injective2 emit) (l : List α) (r : List β)
    (a : α) (b : β) :
    (equiJoin emit kl kr l r).count (emit a b) =
      if kl a = kr b then l.count a * r.count b else 0 := by
  rw [equiJoin_eq_thetaJoin, count_thetaJoin emit _ hemit]
  by_cases hk : kl a = kr b
  · rw [if_pos hk, if_pos (decide_eq_true hk.symm)]
  · rw [if_neg hk, if_neg (by simpa using fun heq => hk heq.symm)]

end GoPrep.Verified.EquiJoin
