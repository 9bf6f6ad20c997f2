import Mathlib.Data.List.Forall2

/-!
All or nothing. A list is read member by member and the reading of the whole fails with the first
member that fails; it succeeds exactly if every member does, with their values in order.
-/

namespace SledeMachine
namespace Traversal
variable {ε α β γ : Type}

theorem bind_eq_ok_iff {x : Except ε α} {f : α → Except ε β} {b : β} :
    x >>= f = .ok b ↔ ∃ a, x = .ok a ∧ f a = .ok b := by
  cases x with
  | error e => simp [bind, Except.bind]
  | ok a => simp [bind, Except.bind]

theorem map_eq_ok_iff {f : α → β} {x : Except ε α} {b : β} :
    x.map f = .ok b ↔ ∃ a, x = .ok a ∧ f a = b := by
  cases x with
  | error e => simp [Except.map]
  | ok a => simp [Except.map]

theorem mapM_eq_ok_iff {f : α → Except ε β} {xs : List α} {ys : List β} :
    xs.mapM f = .ok ys ↔ List.Forall₂ (fun x y => f x = .ok y) xs ys := by
  induction xs generalizing ys with
  | nil => simp [pure, Except.pure, eq_comm]
  | cons x xs ih =>
      rw [List.mapM_cons, List.forall₂_cons_left_iff, bind_eq_ok_iff]
      constructor
      · rintro ⟨y, hy, h⟩
        obtain ⟨rest, hrest, h⟩ := bind_eq_ok_iff.mp h
        cases h
        exact ⟨y, rest, hy, ih.mp hrest, rfl⟩
      · rintro ⟨y, rest, hy, hrest, rfl⟩
        exact ⟨y, hy, bind_eq_ok_iff.mpr ⟨rest, ih.mpr hrest, rfl⟩⟩

theorem bind_eq_error_iff {x : Except ε α} {f : α → Except ε β} {e : ε} :
    x >>= f = .error e ↔ x = .error e ∨ ∃ a, x = .ok a ∧ f a = .error e := by
  cases x with
  | error e => simp [bind, Except.bind]
  | ok a => simp [bind, Except.bind]

theorem map_eq_error_iff {f : α → β} {x : Except ε α} {e : ε} :
    x.map f = .error e ↔ x = .error e := by
  cases x with
  | error e => simp [Except.map]
  | ok a => simp [Except.map]

/-- The error of a reading is that of the first member that fails. -/
theorem mapM_eq_error_iff {f : α → Except ε β} {xs : List α} {e : ε} :
    xs.mapM f = .error e ↔
      ∃ front x back, xs = front ++ x :: back ∧ (∀ y ∈ front, ∃ b, f y = .ok b) ∧
        f x = .error e := by
  induction xs with
  | nil => simp [pure, Except.pure]
  | cons x xs ih =>
      rw [List.mapM_cons, bind_eq_error_iff]
      constructor
      · rintro (now | ⟨b, own, later⟩)
        · exact ⟨[], x, xs, rfl, nofun, now⟩
        · obtain later | ⟨_, -, impossible⟩ := bind_eq_error_iff.mp later
          · obtain ⟨front, y, back, rfl, fine, fails⟩ := ih.mp later
            exact ⟨x :: front, y, back, rfl, List.forall_mem_cons.mpr ⟨⟨b, own⟩, fine⟩, fails⟩
          · cases impossible
      · rintro ⟨front, y, back, split, fine, fails⟩
        cases front with
        | nil =>
            cases split
            exact .inl fails
        | cons z front =>
            cases split
            obtain ⟨⟨b, own⟩, fine⟩ := List.forall_mem_cons.mp fine
            have later := ih.mpr ⟨front, y, back, rfl, fine, fails⟩
            exact .inr ⟨b, own, bind_eq_error_iff.mpr (.inl later)⟩

theorem mapM_map_eq (f : α → Except ε β) (g : β → γ) (xs : List α) :
    xs.mapM (fun x => (f x).map g) = (xs.mapM f).map (List.map g) := by
  induction xs with
  | nil => rfl
  | cons x xs ih =>
      rw [List.mapM_cons, List.mapM_cons, ih]
      cases f x with
      | error e => rfl
      | ok y => cases xs.mapM f <;> rfl

theorem exists_of_mem {R : α → β → Prop} {xs : List α} {ys : List β} (h : List.Forall₂ R xs ys)
    {x : α} (hx : x ∈ xs) : ∃ y, R x y := by
  induction h with
  | nil => cases hx
  | cons hxy _ ih =>
      obtain rfl | hx := List.mem_cons.mp hx
      · exact ⟨_, hxy⟩
      · exact ih hx

theorem exists_mem_of_mem {R : α → β → Prop} {xs : List α} {ys : List β}
    (h : List.Forall₂ R xs ys) {x : α} (hx : x ∈ xs) : ∃ y ∈ ys, R x y := by
  have present := (List.forall₂_and_left ys xs).mpr ⟨fun _ => id, h.flip⟩
  obtain ⟨y, listed, hxy⟩ := exists_of_mem present.flip hx
  exact ⟨y, listed, hxy⟩

theorem map_eq_map {f : α → γ} {g : β → γ} {xs : List α} {ys : List β}
    (h : List.Forall₂ (fun x y => f x = g y) xs ys) : xs.map f = ys.map g := by
  induction h with
  | nil => rfl
  | cons same _ ih => rw [List.map_cons, List.map_cons, same, ih]

theorem exists_mapM_iff {f : α → Except ε β} {xs : List α} :
    (∃ ys, xs.mapM f = .ok ys) ↔ ∀ x ∈ xs, ∃ y, f x = .ok y := by
  constructor
  · rintro ⟨ys, h⟩ x hx
    exact exists_of_mem (mapM_eq_ok_iff.mp h) hx
  · intro all
    cases given : xs.mapM f with
    | ok ys => exact ⟨ys, rfl⟩
    | error e =>
        obtain ⟨front, x, back, rfl, -, fails⟩ := mapM_eq_error_iff.mp given
        obtain ⟨y, own⟩ := all x (List.mem_append_right _ List.mem_cons_self)
        rw [fails] at own
        cases own

end Traversal
end SledeMachine
