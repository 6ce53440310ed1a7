import Mathlib.Algebra.Group.Defs

/-!
# Metered runs

A computation that can fail and counts what it uses.  Comparisons and writes
are time: one after the other they add up.  The cells of temporary buffers
and the frames of the call stack are space: what counts is the most that is
in use at one moment, so a buffer that is freed before the next one is
allocated costs nothing twice.

`x.Ensures post` says that if `x` returns, then `post` holds of what it
returns and of what it has used by then.

## Main results

* `Ensures.bind` — the rule for running one computation after another.
* `Ensures.foldlM` — the rule for a loop with an invariant.
-/

namespace GoPrep.Verified

/-- What a run uses. -/
@[ext] structure Usage where
  comparisons : Nat
  writes : Nat
  /-- The most cells of temporary buffers that are in use at one moment. -/
  cells : Nat
  /-- The most nested calls. -/
  frames : Nat
  deriving DecidableEq, Repr

namespace Usage

/-- Nothing. -/
instance : Zero Usage := ⟨⟨0, 0, 0, 0⟩⟩

/-- One run after the other. -/
instance : Add Usage :=
  ⟨fun u v => ⟨u.comparisons + v.comparisons, u.writes + v.writes,
    max u.cells v.cells, max u.frames v.frames⟩⟩

@[simp] theorem zero_comparisons : (0 : Usage).comparisons = 0 := rfl
@[simp] theorem zero_writes : (0 : Usage).writes = 0 := rfl
@[simp] theorem zero_cells : (0 : Usage).cells = 0 := rfl
@[simp] theorem zero_frames : (0 : Usage).frames = 0 := rfl

section

variable (u v : Usage)

@[simp] theorem add_comparisons :
    (u + v).comparisons = u.comparisons + v.comparisons := rfl

@[simp] theorem add_writes : (u + v).writes = u.writes + v.writes := rfl
@[simp] theorem add_cells : (u + v).cells = max u.cells v.cells := rfl
@[simp] theorem add_frames : (u + v).frames = max u.frames v.frames := rfl

theorem mk_add_mk (c w n f c' w' n' f' : Nat) :
    (⟨c, w, n, f⟩ + ⟨c', w', n', f'⟩ : Usage) =
      ⟨c + c', w + w', max n n', max f f'⟩ := rfl

end

instance : AddMonoid Usage where
  zero_add u := by ext <;> simp
  add_zero u := by ext <;> simp
  add_assoc u v w := by ext <;> simp [Nat.add_assoc, Nat.max_assoc]
  nsmul := nsmulRec

end Usage

/-- What a run returns, if it does, and what it uses. -/
structure Metered (α : Type) where
  value : Option α
  usage : Usage

namespace Metered

variable {α β : Type}

/-- A failing run ends the computation. -/
instance : Monad Metered where
  pure a := ⟨some a, 0⟩
  bind x f :=
    match x.value with
    | none => ⟨none, x.usage⟩
    | some a => ⟨(f a).value, x.usage + (f a).usage⟩

/-- A step that uses nothing. -/
def lift (value : Option α) : Metered α := ⟨value, 0⟩

/-- One comparison. -/
def comparison : Metered Unit := ⟨some (), ⟨1, 0, 0, 0⟩⟩

/-- One element is written. -/
def write : Metered Unit := ⟨some (), ⟨0, 1, 0, 0⟩⟩

/-- A buffer of `n` cells is held while `x` runs. -/
def holding (n : Nat) (x : Metered α) : Metered α :=
  ⟨x.value, { x.usage with cells := n + x.usage.cells }⟩

/-- `x` is the body of a call. -/
def call (x : Metered α) : Metered α :=
  ⟨x.value, { x.usage with frames := x.usage.frames + 1 }⟩

/-- `x`, with what it returns known to be its value. -/
def attach (x : Metered α) : Metered { a // x.value = some a } :=
  ⟨x.value.attach, x.usage⟩

/-! ## What is returned -/

@[simp] theorem value_pure (a : α) : (pure a : Metered α).value = some a := rfl

@[simp] theorem value_lift (value : Option α) : (lift value).value = value :=
  rfl

@[simp] theorem value_comparison : comparison.value = some () := rfl
@[simp] theorem value_write : write.value = some () := rfl

@[simp] theorem value_holding (n : Nat) (x : Metered α) :
    (holding n x).value = x.value := rfl

@[simp] theorem value_call (x : Metered α) : (call x).value = x.value := rfl

@[simp] theorem value_bind (x : Metered α) (f : α → Metered β) :
    (x >>= f).value = x.value.bind fun a => (f a).value := by
  show (match x.value with
    | none => (⟨none, x.usage⟩ : Metered β)
    | some a => ⟨(f a).value, x.usage + (f a).usage⟩).value = _
  cases x.value <;> rfl

theorem value_attach_bind {x : Metered α} {a : α} (h : x.value = some a)
    (f : { a // x.value = some a } → Metered β) :
    (x.attach >>= f).value = (f ⟨a, h⟩).value := by
  rw [value_bind]
  have hattach : x.attach.value = some ⟨a, h⟩ :=
    Option.attach_eq_some_iff.mpr h
  rw [hattach, Option.bind_some]

theorem value_foldlM (f : β → α → Metered β) (l : List α) (b : β) :
    (l.foldlM f b).value = l.foldlM (fun b a => (f b a).value) b := by
  induction l generalizing b with
  | nil => rfl
  | cons a l ih =>
      rw [List.foldlM_cons, value_bind, List.foldlM_cons]
      exact congrArg _ (funext ih)

/-! ## What is used -/

/-- If `x` returns, `post` holds of the value and the usage. -/
def Ensures (x : Metered α) (post : α → Usage → Prop) : Prop :=
  ∀ a, x.value = some a → post a x.usage

namespace Ensures

variable {x : Metered α} {post : α → Usage → Prop}

theorem mono {post' : α → Usage → Prop} (h : x.Ensures post)
    (himp : ∀ a u, post a u → post' a u) : x.Ensures post' :=
  fun a ha => himp a _ (h a ha)

theorem pure {a : α} (h : post a 0) :
    (Pure.pure a : Metered α).Ensures post := by
  intro a' ha
  cases ha
  exact h

theorem lift {value : Option α} (h : ∀ a, value = some a → post a 0) :
    (Metered.lift value).Ensures post :=
  h

theorem comparison {post : Unit → Usage → Prop} (h : post () ⟨1, 0, 0, 0⟩) :
    Metered.comparison.Ensures post :=
  fun _ _ => h

theorem write {post : Unit → Usage → Prop} (h : post () ⟨0, 1, 0, 0⟩) :
    Metered.write.Ensures post :=
  fun _ _ => h

theorem holding {n : Nat}
    (h : x.Ensures fun a u => post a { u with cells := n + u.cells }) :
    (Metered.holding n x).Ensures post :=
  h

theorem call
    (h : x.Ensures fun a u => post a { u with frames := u.frames + 1 }) :
    (Metered.call x).Ensures post :=
  h

theorem attach (h : x.Ensures post) :
    x.attach.Ensures fun a u => post a.1 u :=
  fun a _ => h a.1 a.2

/-- **One run after another.** -/
theorem bind {post : β → Usage → Prop} {f : α → Metered β}
    (h : x.Ensures fun a u => (f a).Ensures fun b v => post b (u + v)) :
    (x >>= f).Ensures post := by
  intro b hb
  rw [value_bind] at hb
  obtain ⟨a, ha, hfb⟩ := Option.bind_eq_some_iff.mp hb
  have husage : (x >>= f).usage = x.usage + (f a).usage := by
    show (match x.value with
      | none => (⟨none, x.usage⟩ : Metered β)
      | some a => ⟨(f a).value, x.usage + (f a).usage⟩).usage = _
    rw [ha]
  rw [husage]
  exact h a ha b hfb

/-- **A loop with an invariant** of what it has computed and used so far. -/
theorem foldlM (inv : β → Usage → Prop) {f : β → α → Metered β} {l : List α}
    {b : β} (h : inv b 0)
    (hstep : ∀ b u, ∀ a ∈ l, inv b u →
      (f b a).Ensures fun b' v => inv b' (u + v)) :
    (l.foldlM f b).Ensures inv := by
  induction l generalizing b inv with
  | nil => exact pure h
  | cons a l ih =>
      rw [List.foldlM_cons]
      refine bind ((hstep b 0 a List.mem_cons_self h).mono fun b' v hb' => ?_)
      rw [zero_add] at hb'
      refine ih (fun b'' w => inv b'' (v + w)) (by rwa [add_zero]) ?_
      intro b'' w a' ha' hinv
      have hrest := hstep b'' (v + w) a' (List.mem_cons_of_mem _ ha') hinv
      exact hrest.mono fun _ _ hout => by rwa [← add_assoc]

end Ensures

end Metered

end GoPrep.Verified
