-- SUMMARY: What a computation has done step by step if it succeeds, and which step failed if not.
import BuildLog.Machine
import Mathlib.Data.List.Forall2

/-!
# Computations in steps

A computation in steps succeeds if each step does, on what the steps before it gave, and it fails
if one of them does. The lemmas take such a computation apart, for results that may be faults and
for actions on a machine.
-/

namespace BuildLog

/-! ## Results that may be faults -/

section

variable {ε α β : Type}

theorem bind_eq_ok {x : Except ε α} {f : α → Except ε β} {b : β} :
    x >>= f = .ok b ↔ ∃ a, x = .ok a ∧ f a = .ok b := by
  cases x with
  | error e => simp [bind, Except.bind]
  | ok a => simp [bind, Except.bind]

theorem bind_eq_error {x : Except ε α} {f : α → Except ε β} {e : ε} :
    x >>= f = .error e ↔ x = .error e ∨ ∃ a, x = .ok a ∧ f a = .error e := by
  cases x with
  | error e' => simp [bind, Except.bind]
  | ok a => simp [bind, Except.bind]

theorem map_eq_ok {x : Except ε α} {f : α → β} {b : β} :
    x.map f = .ok b ↔ ∃ a, x = .ok a ∧ f a = b := by
  cases x with
  | error e => simp [Except.map]
  | ok a => simp [Except.map]

theorem map_eq_error {x : Except ε α} {f : α → β} {e : ε} : x.map f = .error e ↔ x = .error e := by
  cases x with
  | error e' => simp [Except.map]
  | ok a => simp [Except.map]

end

/-! ## Steps on each element -/

theorem exists_forall₂ {α β : Type} {R : α → β → Prop} {xs : List α}
    (h : ∀ x ∈ xs, ∃ y, R x y) : ∃ ys, List.Forall₂ R xs ys := by
  induction xs with
  | nil => exact ⟨[], .nil⟩
  | cons x xs ih =>
    obtain ⟨y, hy⟩ := h x (by simp)
    obtain ⟨ys, hys⟩ := ih fun x' hx' => h x' (by simp [hx'])
    exact ⟨y :: ys, .cons hy hys⟩

theorem exists_of_forall₂ {α β : Type} {R : α → β → Prop} {xs : List α} {ys : List β} {x : α}
    (h : List.Forall₂ R xs ys) (hx : x ∈ xs) : ∃ y ∈ ys, R x y := by
  induction h with
  | nil => cases hx
  | cons hxy _ ih =>
    rcases List.mem_cons.1 hx with rfl | hx
    · exact ⟨_, List.mem_cons_self, hxy⟩
    · obtain ⟨y, hy, hxy⟩ := ih hx
      exact ⟨y, List.mem_cons_of_mem _ hy, hxy⟩

theorem forall₂_comp {α β γ : Type} {R : α → β → Prop} {S : β → γ → Prop} {xs : List α}
    {zs : List γ} :
    List.Forall₂ (fun x z => ∃ y, R x y ∧ S y z) xs zs ↔
      ∃ ys, List.Forall₂ R xs ys ∧ List.Forall₂ S ys zs := by
  constructor
  · intro h
    induction h with
    | nil => exact ⟨[], .nil, .nil⟩
    | cons hxz _ ih =>
      obtain ⟨y, hxy, hyz⟩ := hxz
      obtain ⟨ys, hxs, hzs⟩ := ih
      exact ⟨y :: ys, .cons hxy hxs, .cons hyz hzs⟩
  · rintro ⟨ys, hxs, hzs⟩
    induction hxs generalizing zs with
    | nil =>
      cases hzs
      exact .nil
    | cons hxy _ ih =>
      cases hzs with
      | cons hyz hzs => exact .cons ⟨_, hxy, hyz⟩ (ih hzs)

/-! ## Actions -/

namespace Action

variable {α β : Type} {m m' : Machine}

theorem bind_run_eq_ok {x : Action α} {f : α → Action β} {b : β} :
    (x >>= f).run m = .ok b m' ↔ ∃ a m₁, x.run m = .ok a m₁ ∧ (f a).run m₁ = .ok b m' := by
  change EStateM.bind x f m = .ok b m' ↔ ∃ a m₁, x m = .ok a m₁ ∧ f a m₁ = .ok b m'
  rw [EStateM.bind]
  cases x m with
  | error e m₁ => simp
  | ok a m₁ => simp

theorem bind_run_of_ok {x : Action α} {f : α → Action β} {a : α} (h : x.run m = .ok a m') :
    (x >>= f).run m = (f a).run m' := by
  change EStateM.bind x f m = f a m'
  rw [EStateM.bind, show x m = .ok a m' from h]

theorem bind_run_of_error {x : Action α} {f : α → Action β} {failure : Failure}
    (h : x.run m = .error failure m') : (x >>= f).run m = .error failure m' := by
  change EStateM.bind x f m = .error failure m'
  rw [EStateM.bind, show x m = .error failure m' from h]

theorem bind_run_eq_error {x : Action α} {f : α → Action β} {failure : Failure} :
    (x >>= f).run m = .error failure m' ↔
      x.run m = .error failure m' ∨ ∃ a m₁, x.run m = .ok a m₁ ∧ (f a).run m₁ = .error failure m' := by
  change EStateM.bind x f m = .error failure m' ↔
    x m = .error failure m' ∨ ∃ a m₁, x m = .ok a m₁ ∧ f a m₁ = .error failure m'
  rw [EStateM.bind]
  cases x m with
  | error e m₁ => simp
  | ok a m₁ => simp

theorem pure_run_eq_ok {a b : α} : (pure a : Action α).run m = .ok b m' ↔ a = b ∧ m = m' := by
  change EStateM.Result.ok a m = .ok b m' ↔ _
  simp

theorem get_run : (get : Action Machine).run m = .ok m m := rfl

theorem attempt_run {ε : Type} (f : Machine → Except ε α) (failure : ε → Failure) :
    (attempt f failure).run m =
      match f m with
      | .ok a => .ok a m
      | .error e => .error (failure e) m := by
  rw [attempt, bind_run_of_ok get_run]
  cases f m <;> rfl

theorem step_run {ε : Type} (f : Machine → Except ε (α × Machine)) (failure : ε → Failure) :
    (step f failure).run m =
      match f m with
      | .ok (a, m') => .ok a m'
      | .error e => .error (failure e) m := by
  rw [step, bind_run_of_ok get_run]
  cases f m <;> rfl

/-- An action that only looks at the machine succeeds without changing it. -/
theorem attempt_run_eq_ok {ε : Type} {f : Machine → Except ε α} {failure : ε → Failure} {a : α} :
    (attempt f failure).run m = .ok a m' ↔ f m = .ok a ∧ m = m' := by
  rw [attempt_run]
  cases f m with
  | ok a' => simp
  | error e => simp

theorem attempt_run_eq_error {ε : Type} {f : Machine → Except ε α} {failure : ε → Failure}
    {e' : Failure} :
    (attempt f failure).run m = .error e' m' ↔ (∃ e, f m = .error e ∧ failure e = e') ∧ m = m' := by
  rw [attempt_run]
  cases f m with
  | ok a => simp
  | error e => simp

theorem readFile_run {path : Path} {data : Bytes} (h : m.files.readFile m.here path = .ok data) :
    (readFile path).run m = .ok data m :=
  attempt_run_eq_ok.2 ⟨h, rfl⟩

/-- Actions that only look at the machine succeed one after the other if each does on its
own. -/
theorem mapM_run_eq_ok {f : α → Action β} {xs : List α} {ys : List β}
    (hf : ∀ a b m m', (f a).run m = .ok b m' → m = m') :
    (xs.mapM f).run m = .ok ys m' ↔
      List.Forall₂ (fun x y => (f x).run m = .ok y m) xs ys ∧ m = m' := by
  induction xs generalizing ys with
  | nil =>
    rw [List.mapM_nil, pure_run_eq_ok, List.forall₂_nil_left_iff]
    exact and_congr_left fun _ => eq_comm
  | cons x xs ih =>
    rw [List.mapM_cons, bind_run_eq_ok, List.forall₂_cons_left_iff]
    constructor
    · rintro ⟨y, m₁, hy, h⟩
      cases hf x y m m₁ hy
      obtain ⟨ys', m₂, hys, h⟩ := bind_run_eq_ok.1 h
      obtain ⟨rfl, rfl⟩ := pure_run_eq_ok.1 h
      obtain ⟨hall, rfl⟩ := ih.1 hys
      exact ⟨⟨y, ys', hy, hall, rfl⟩, rfl⟩
    · rintro ⟨⟨y, ys', hy, hall, rfl⟩, rfl⟩
      refine ⟨y, m, hy, bind_run_eq_ok.2 ⟨ys', m, ih.2 ⟨hall, rfl⟩, ?_⟩⟩
      exact pure_run_eq_ok.2 ⟨rfl, rfl⟩

theorem exists_of_mapM_run_eq_error {f : α → Action β} {xs : List α} {failure : Failure}
    (hf : ∀ a b m m', (f a).run m = .ok b m' → m = m')
    (h : (xs.mapM f).run m = .error failure m') : ∃ x ∈ xs, (f x).run m = .error failure m' := by
  induction xs with
  | nil => cases h
  | cons x xs ih =>
    rw [List.mapM_cons] at h
    rcases bind_run_eq_error.1 h with h | ⟨y, m₁, hy, h⟩
    · exact ⟨x, List.mem_cons_self, h⟩
    · obtain rfl := hf x y m m₁ hy
      rcases bind_run_eq_error.1 h with h | ⟨ys, m₂, -, h⟩
      · obtain ⟨x', hx', h⟩ := ih h
        exact ⟨x', List.mem_cons_of_mem x hx', h⟩
      · cases h

end Action

end BuildLog
