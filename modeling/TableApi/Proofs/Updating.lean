import Mathlib.Data.List.Forall2
import TableApi.Schema.Basic

/-! When checks in `Except` and updates of a state succeed, step by step. -/
namespace TableApi

section Matching

variable {α β : Type} {r : α → β → Prop} {xs : List α} {ys : List β}

theorem forall₂_exists_left {y : β} (h : List.Forall₂ r xs ys) (hy : y ∈ ys) : ∃ x ∈ xs, r x y := by
  induction h with
  | nil => cases hy
  | cons hx _ ih =>
    rcases List.mem_cons.1 hy with rfl | hy
    · exact ⟨_, List.mem_cons_self, hx⟩
    · obtain ⟨x, hm, hx⟩ := ih hy
      exact ⟨x, List.mem_cons_of_mem _ hm, hx⟩

theorem forall₂_exists_right {x : α} (h : List.Forall₂ r xs ys) (hx : x ∈ xs) : ∃ y ∈ ys, r x y :=
  forall₂_exists_left h.flip hx

theorem forall₂_forall_mem_iff {p : α → Prop} {q : β → Prop} (h : List.Forall₂ r xs ys)
    (hpq : ∀ x y, r x y → (p x ↔ q y)) : (∀ x ∈ xs, p x) ↔ ∀ y ∈ ys, q y := by
  constructor
  · intro hp y hy
    obtain ⟨x, hx, hxy⟩ := forall₂_exists_left h hy
    exact (hpq x y hxy).1 (hp x hx)
  · intro hq x hx
    obtain ⟨y, hy, hxy⟩ := forall₂_exists_right h hx
    exact (hpq x y hxy).2 (hq y hy)

theorem map_eq_map_iff {f : α → β} {xs ys : List α} :
    xs.map f = ys.map f ↔ List.Forall₂ (fun x y => f x = f y) xs ys := by
  rw [← List.forall₂_map_right_iff, ← List.forall₂_map_left_iff, List.forall₂_eq_eq_eq]

end Matching

section Checks

variable {ε α β : Type}

@[simp] theorem Except.bind_ok_iff {x : Except ε α} {f : α → Except ε β} {b : β} :
    x >>= f = .ok b ↔ ∃ a, x = .ok a ∧ f a = .ok b := by
  cases x with
  | error e => simp [bind, Except.bind]
  | ok a => simp [bind, Except.bind]

theorem Except.exists_bind_ok_iff {x : Except ε α} {f : α → Except ε β} :
    (∃ b, x >>= f = .ok b) ↔ ∃ a, x = .ok a ∧ ∃ b, f a = .ok b := by
  simp only [bind_ok_iff]
  constructor
  · rintro ⟨b, a, ha, hb⟩
    exact ⟨a, ha, b, hb⟩
  · rintro ⟨a, ha, b, hb⟩
    exact ⟨b, a, ha, hb⟩

theorem Except.exists_bind_pure_iff {x : Except ε α} {f : α → β} :
    (∃ b, (x >>= fun a => pure (f a)) = .ok b) ↔ ∃ a, x = .ok a := by
  rw [exists_bind_ok_iff]
  exact exists_congr fun a => and_iff_left ⟨f a, rfl⟩

@[simp] theorem Except.map_ok_iff {x : Except ε α} {f : α → β} {b : β} :
    f <$> x = .ok b ↔ ∃ a, x = .ok a ∧ f a = b := by
  cases x with
  | error e => simp [Functor.map, Except.map]
  | ok a => simp [Functor.map, Except.map]

@[simp] theorem Except.pure_ok_iff {a b : α} : (pure a : Except ε α) = .ok b ↔ a = b := by
  simp [pure, Except.pure]

theorem Except.mapM_ok_iff {f : α → Except ε β} {xs : List α} {ys : List β} :
    xs.mapM f = .ok ys ↔ List.Forall₂ (fun x y => f x = .ok y) xs ys := by
  induction xs generalizing ys with
  | nil => simp [eq_comm (b := ys)]
  | cons x xs ih =>
    simp only [List.mapM_cons, bind_ok_iff, pure_ok_iff, ih, List.forall₂_cons_left_iff]
    constructor
    · rintro ⟨y, hy, rest, hr, rfl⟩
      exact ⟨y, rest, hy, hr, rfl⟩
    · rintro ⟨y, rest, hy, hr, rfl⟩
      exact ⟨y, hy, rest, hr, rfl⟩

theorem Except.exists_mapM_ok_iff {f : α → Except ε β} {xs : List α} :
    (∃ ys, xs.mapM f = .ok ys) ↔ ∀ x ∈ xs, ∃ y, f x = .ok y := by
  induction xs with
  | nil => exact ⟨fun _ x hx => absurd hx List.not_mem_nil, fun _ => ⟨[], by simp⟩⟩
  | cons x xs ih =>
    simp only [List.mapM_cons, bind_ok_iff, pure_ok_iff, List.forall_mem_cons, ← ih]
    constructor
    · rintro ⟨_, y, hy, ys, hys, _⟩
      exact ⟨⟨y, hy⟩, ys, hys⟩
    · rintro ⟨⟨y, hy⟩, ys, hys⟩
      exact ⟨y :: ys, y, hy, ys, hys, rfl⟩

theorem Except.exists_of_mapM_ok {f : α → Except ε β} {xs : List α} {ys : List β} {y : β}
    (h : xs.mapM f = .ok ys) (hy : y ∈ ys) : ∃ x ∈ xs, f x = .ok y := by
  obtain ⟨x, hx, hxy⟩ := forall₂_exists_left (r := fun x y => f x = .ok y) (mapM_ok_iff.1 h) hy
  exact ⟨x, hx, hxy⟩

/-- Of arguments that are among others the results are among those of the others. -/
theorem Except.subset_of_mapM_ok {f : α → Except ε β} {xs zs : List α} {ys ws : List β} (hxs : xs ⊆ zs)
    (h : xs.mapM f = .ok ys) (g : zs.mapM f = .ok ws) : ys ⊆ ws := by
  intro y hy
  obtain ⟨x, hx, hxy⟩ := exists_of_mapM_ok h hy
  obtain ⟨w, hw, hxw⟩ := forall₂_exists_right (mapM_ok_iff.1 g) (hxs hx)
  obtain rfl : w = y := Except.ok.inj (hxw.symm.trans hxy)
  exact hw

/-- What the results tell as the arguments do is told of them in the same order. -/
theorem Except.map_eq_of_mapM_ok {γ : Type} {f : α → Except ε β} {xs : List α} {ys : List β} {a : α → γ}
    {b : β → γ} (h : xs.mapM f = .ok ys) (hab : ∀ x y, f x = .ok y → b y = a x) : ys.map b = xs.map a := by
  rw [Except.mapM_ok_iff] at h
  induction h with
  | nil => rfl
  | cons hxy _ ih => rw [List.map_cons, List.map_cons, ih, hab _ _ hxy]

theorem Except.exists_ok_of_decide {x : Except ε α} {p : α → Prop} [DecidablePred p]
    (h : x.toOption.any fun a => decide (p a)) : ∃ a, x = .ok a ∧ p a := by
  cases x with
  | error e => exact absurd h Bool.false_ne_true
  | ok a => exact ⟨a, rfl, of_decide_eq_true h⟩

end Checks

/-- The result of an update and the state it leaves. -/
def outcome {σ α : Type} (update : Updating σ α) (s : σ) : Except Error α × σ :=
  update.run.run s

/-- The update is not refused: from `s` it gives `a` and leaves `t`. -/
def Gives {σ α : Type} (update : Updating σ α) (s : σ) (a : α) (t : σ) : Prop :=
  outcome update s = (.ok a, t)

section Updates

variable {σ α β : Type} {s t : σ} {a : α} {b : β}

theorem outcome_bind (x : Updating σ α) (f : α → Updating σ β) (s : σ) :
    outcome (x >>= f) s =
      match outcome x s with
      | (.ok a, r) => outcome (f a) r
      | (.error e, r) => (.error e, r) := by
  unfold outcome
  rw [ExceptT.run_bind, StateT.run_bind]
  rcases x.run.run s with ⟨e | a, r⟩ <;> rfl

theorem outcome_get_bind (f : σ → Updating σ β) (s : σ) : outcome (get >>= f) s = outcome (f s) s :=
  rfl

@[simp] theorem gives_pure {r : α} : Gives (pure a) s r t ↔ r = a ∧ t = s := by
  change (Except.ok a, s) = (Except.ok r, t) ↔ r = a ∧ t = s
  simp [eq_comm]

@[simp] theorem gives_bind {x : Updating σ α} {f : α → Updating σ β} :
    Gives (x >>= f) s b t ↔ ∃ a r, Gives x s a r ∧ Gives (f a) r b t := by
  unfold Gives
  rw [outcome_bind]
  rcases outcome x s with ⟨e | a, r⟩
  · simp
  · simp [eq_comm]

@[simp] theorem gives_get {r : σ} : Gives (get : Updating σ σ) s r t ↔ r = s ∧ t = s := by
  change (Except.ok s, s) = (Except.ok r, t) ↔ r = s ∧ t = s
  simp [eq_comm]

@[simp] theorem gives_get_bind {f : σ → Updating σ β} :
    Gives (get >>= f) s b t ↔ Gives (f s) s b t := by
  rw [Gives, outcome_get_bind, Gives]

@[simp] theorem gives_set {r : σ} {v : PUnit} : Gives (set r : Updating σ PUnit) s v t ↔ t = r := by
  change (Except.ok PUnit.unit, r) = (Except.ok v, t) ↔ t = r
  simp [eq_comm]

@[simp] theorem gives_modify {f : σ → σ} {v : PUnit} :
    Gives (modify f : Updating σ PUnit) s v t ↔ t = f s := by
  change (Except.ok PUnit.unit, f s) = (Except.ok v, t) ↔ t = f s
  simp [eq_comm]

@[simp] theorem gives_throw {e : Error} : Gives (throw e) s a t ↔ False := by
  change (Except.error e, s) = (Except.ok a, t) ↔ False
  simp

/-- A check within an update leaves the state as it is. -/
@[simp] theorem gives_check {x : Except Error α} :
    Gives (liftM x : Updating σ α) s a t ↔ x = .ok a ∧ t = s := by
  cases x with
  | error e =>
    change (Except.error e, s) = (Except.ok a, t) ↔ _
    simp
  | ok r =>
    change (Except.ok r, s) = (Except.ok a, t) ↔ _
    simp [eq_comm]

@[simp] theorem gives_forM_nil {f : α → Updating σ PUnit} {v : PUnit} :
    Gives (forM ([] : List α) f) s v t ↔ t = s := by
  change Gives (pure PUnit.unit) s v t ↔ t = s
  simp

@[simp] theorem gives_forM_cons {f : α → Updating σ PUnit} {x : α} {xs : List α} {v : PUnit} :
    Gives (forM (x :: xs) f) s v t ↔ ∃ r, Gives (f x) s ⟨⟩ r ∧ Gives (forM xs f) r ⟨⟩ t := by
  change Gives (f x >>= fun _ => forM xs f) s v t ↔ _
  rw [gives_bind]
  constructor
  · rintro ⟨_, r, hx, hr⟩
    exact ⟨r, hx, hr⟩
  · rintro ⟨r, hx, hr⟩
    exact ⟨⟨⟩, r, hx, hr⟩

theorem gives_of_ok {x : Updating σ α} (h : (outcome x s).1 = .ok a) : Gives x s a (outcome x s).2 := by
  rw [Gives, ← h]

end Updates

end TableApi
