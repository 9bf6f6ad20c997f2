import SledeMachine.Proofs.Completion

/-!
What is noted while a run is pulled to its end. A visitor that makes a note of every pull by itself
has noted, in order, what it notes of the pulls one by one; what the notes are has no influence on
the pulls, nor on how the run ends. The snapshots among the pulls are those that pulling gives, and
the end is the one that finishing the run tells.
-/

namespace SledeMachine

namespace Run

section
variable {σ : Type} {visit : σ → Run → Pull → σ} {s : σ} {r : Run} {m : Machine} {fault : Fault}

theorem ended_of_error {after : Run} (h : r.next = (some (.error fault), after)) :
    ¬ after.Continues := by
  refine (gives_of_next h).ended fun m snapshot => ?_
  cases snapshot

/-- The pulls that bring a run to its end, each with the run before it. -/
def visited (r : Run) : List (Run × Pull) :=
  (r.drain (fun seen before pull => seen ++ [(before, pull)]) []).1

/-- What is noted of each pull by itself comes together in the order of the pulls. -/
theorem toList_drain (r : Run) {β : Type} (note : Run → Pull → List β) :
    (r.drain (fun (acc : Array β) before pull => acc ++ note before pull) #[]).1.toList =
      r.visited.flatMap fun seen => note seen.1 seen.2 := by
  let related (acc : Array β) (seen : List (Run × Pull)) : Prop :=
    acc.toList = seen.flatMap fun seen => note seen.1 seen.2
  have keeps (acc : Array β) (seen : List (Run × Pull)) (before : Run) (pull : Pull)
      (h : related acc seen) : related (acc ++ note before pull) (seen ++ [(before, pull)]) := by
    simp only [related, Array.toList_appendList, List.flatMap_append, List.flatMap_singleton] at h ⊢
    rw [h]
  exact (drain_related keeps (s := #[]) (t := []) rfl r).1

theorem visited_of_snapshot {after : Run} (h : r.next = (some (.ok m), after)) :
    r.visited = (r, some (.ok m)) :: after.visited := by
  let related (seen later : List (Run × Pull)) : Prop := seen = (r, some (.ok m)) :: later
  have keeps (seen later : List (Run × Pull)) (before : Run) (pull : Pull)
      (h : related seen later) :
      related (seen ++ [(before, pull)]) (later ++ [(before, pull)]) := by
    simp only [related] at h ⊢
    rw [h, List.cons_append]
  rw [visited, drain_of_snapshot h]
  exact (drain_related keeps rfl after).1

/-- The snapshots that are seen on the way are those that pulling gives. -/
theorem snapshots_visited (r : Run) :
    snapshots (r.visited.map Prod.snd) = snapshots (r.pullAll.1.map some) := by
  induction r using pullAll.induct with
  | case1 r item after given _ _ _ ih =>
      rw [pullAll_of_some given]
      cases item with
      | ok m =>
          rw [visited_of_snapshot given, List.map_cons, List.map_cons, snapshots, snapshots,
            List.filterMap_cons, List.filterMap_cons]
          exact congrArg (m :: ·) ih
      | error fault =>
          rw [visited, drain_of_error given, pullAll_of_not_continues (ended_of_error given)]
          rfl
  | case2 r after given =>
      rw [visited, drain_of_none given, pullAll_of_none given]
      rfl

theorem snd_drain (visit : σ → Run → Pull → σ) (s : σ) (r : Run) :
    (r.drain visit s).2 = (r.drain (fun _ _ _ => ()) ()).2 := by
  let related (_ : σ) (_ : Unit) : Prop := True
  have keeps (s : σ) (t : Unit) (before : Run) (pull : Pull) (_ : related s t) :
      related (visit s before pull) () := trivial
  exact (drain_related keeps (t := ()) trivial r).2

theorem last_drain (visit : σ → Run → Pull → σ) (s : σ) (r : Run) :
    (r.drain visit s).2.2 = r.pullAll.2 := by
  induction s, r using drain.induct visit with
  | case1 s r m after given ih => rw [drain_of_snapshot given, ih, pullAll_of_some given]
  | case2 s r fault after given =>
      rw [drain_of_error given, pullAll_of_some given,
        pullAll_of_not_continues (ended_of_error given)]
  | case3 s r after given => rw [drain_of_none given, pullAll_of_none given]

theorem machine_of_finish_ok (h : r.finish = .ok m) : r.pullAll.2.machine = m := by
  rw [finish] at h
  split at h
  · cases h
  · rename_i ended
    cases h
    rw [← r.last_drain (fun _ _ _ => ()) (), ended]

theorem end_of_finish_ok (h : r.finish = .ok m) : (r.drain visit s).2 = (none, r.pullAll.2) := by
  rw [finish, ← r.snd_drain visit s] at h
  split at h
  · cases h
  · rename_i ended
    rw [← r.last_drain visit s, ended]

theorem end_of_finish_error (h : r.finish = .error fault) :
    (r.drain visit s).2 = (some fault, r.pullAll.2) := by
  rw [finish, ← r.snd_drain visit s] at h
  split at h
  · rename_i ended
    cases h
    rw [← r.last_drain visit s, ended]
  · cases h

section
variable {β : Type} (note : Run → Pull → List β)

theorem drain_of_finish_ok (h : r.finish = .ok m) :
    r.drain (fun (acc : Array β) before pull => acc ++ note before pull) #[] =
      ((r.visited.flatMap fun seen => note seen.1 seen.2).toArray, none, r.pullAll.2) :=
  Prod.ext (Array.ext' (r.toList_drain note)) (end_of_finish_ok h)

theorem drain_of_finish_error (h : r.finish = .error fault) :
    r.drain (fun (acc : Array β) before pull => acc ++ note before pull) #[] =
      ((r.visited.flatMap fun seen => note seen.1 seen.2).toArray, some fault, r.pullAll.2) :=
  Prod.ext (Array.ext' (r.toList_drain note)) (end_of_finish_error h)

end

/-- A run that ends without a fault has counted the snapshots that it has given. -/
theorem ticks_pullAll {past : List Machine} (items : r.pullAll.1 = past.map .ok) :
    r.pullAll.2.ticks = r.ticks + past.length := by
  induction r using pullAll.induct generalizing past with
  | case1 r item after given _ _ _ ih =>
      rw [pullAll_of_some given] at items ⊢
      cases past with
      | nil => cases items
      | cons m past =>
          obtain ⟨rfl, later⟩ := List.cons.inj items
          have rule := gives_of_next given
          have counted : after.ticks = r.ticks + 1 := by cases rule; rfl
          rw [ih later, counted, List.length_cons]
          omega
  | case2 r after given =>
      rw [pullAll_of_none given] at items ⊢
      rw [List.map_eq_nil_iff.mp items.symm]
      have rule := gives_of_next given
      cases rule <;> rfl

end
end Run

theorem snapshots_map_ok (past : List Machine) :
    snapshots ((past.map Except.ok).map some) = past := by
  simp [snapshots, List.filterMap_map, Function.comp_def, Pull.snapshot?]

end SledeMachine
