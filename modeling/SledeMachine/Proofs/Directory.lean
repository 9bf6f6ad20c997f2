import SledeMachine.Proofs.Traversal
import SledeMachine.Directory

/-!
Reading what was written. Where a path leads does not depend on the files that there are, only the
error of one that leads nowhere does; what it leads to has the name that the path ends with. So a
file that has been put into a directory is read from every path that leads to it, and from every
other path the same bytes are read as before.
-/

namespace SledeMachine

/-- A component of a path that is a name, rather than a place to stay at or to go up from. -/
def Path.IsName (component : Text) : Prop := component ∉ [[], ['.'], ['.', '.']]

instance (component : Text) : Decidable (Path.IsName component) :=
  inferInstanceAs (Decidable (¬ _))

namespace Directory

variable {d : Directory} {path name : Text} {bytes : List UInt8} {place : Place}

theorem lookup_filter_ne {other : Text} (apart : other ≠ name) (files : List (Text × List UInt8)) :
    (files.filter fun file => file.1 ≠ name).lookup other = files.lookup other := by
  induction files with
  | nil => rfl
  | cons file files ih =>
      by_cases kept : file.1 ≠ name
      · rw [List.filter_cons_of_pos (by simpa using kept), List.lookup_cons, List.lookup_cons, ih]
      · rw [List.filter_cons_of_neg (by simpa using kept), ih, List.lookup_cons]
        have missed : (other == file.1) = false := by simpa [not_not.mp kept] using apart
        rw [missed]

theorem find?_put (d : Directory) (name other : Text) (bytes : List UInt8) :
    (d.put name bytes).find? other = if other = name then some bytes else d.find? other := by
  rw [find?, put, List.lookup_cons]
  by_cases same : other = name
  · simp [same]
  · rw [if_neg same, beq_eq_false_iff_ne.mpr same, find?, lookup_filter_ne same]

/-- What a component makes of a walk, whatever the files are. -/
theorem walk_cons (component : Text) (rest : List Text) :
    (∀ d : Directory, d.walk (component :: rest) = d.walk rest) ∨
      (∀ d : Directory, d.walk (component :: rest) = .ok .directory) ∨
      (Path.IsName component ∧ rest.all (· = []) ∧
        ∀ d : Directory, d.walk (component :: rest) = .ok (.entry component (rest ≠ []))) ∨
      ∀ d : Directory, ∃ e, d.walk (component :: rest) = .error e := by
  have step (d : Directory) : d.walk (component :: rest) =
      if component = [] ∨ component = ['.'] then d.walk rest
      else if component = ['.', '.'] then
        if rest.all fun c => c = [] ∨ c = ['.'] ∨ c = ['.', '.'] then .ok .directory
        else .error .notFound
      else if 255 < component.utf8.length then .error .nameTooLong
      else if rest.all (· = []) then .ok (.entry component (rest ≠ []))
      else if (d.find? component).isSome then .error .notDirectory
      else .error .notFound := rfl
  simp only [step]
  split_ifs with skipped above inside long last
  · exact .inl fun _ => rfl
  · exact .inr (.inl fun _ => rfl)
  · exact .inr (.inr (.inr fun _ => ⟨_, rfl⟩))
  · exact .inr (.inr (.inr fun _ => ⟨_, rfl⟩))
  · exact .inr (.inr (.inl ⟨by simp_all [Path.IsName], last, fun _ => rfl⟩))
  -- The files are looked at only where the path goes on behind a name and leads nowhere.
  · refine .inr (.inr (.inr fun d => ?_))
    split_ifs <;> exact ⟨_, rfl⟩

theorem walk_eq_ok (e : Directory) {components : List Text} (h : d.walk components = .ok place) :
    e.walk components = .ok place := by
  induction components with
  | nil => exact h
  | cons component rest ih =>
      obtain skip | above | ⟨-, -, named⟩ | fails := walk_cons component rest
      · rw [skip] at h ⊢
        exact ih h
      · rw [above] at h ⊢
        exact h
      · rw [named] at h ⊢
        exact h
      · obtain ⟨_, failed⟩ := fails d
        cases failed.symm.trans h

/-- How a path is followed depends on how it begins, whatever the files are. -/
theorem resolve_cases (path : Text) :
    (∀ d : Directory, d.resolve path = .error .notFound) ∨
      (∀ d : Directory, d.resolve path = walkRoot false (path.splitOn '/')) ∨
      ∀ d : Directory, d.resolve path = d.walk (path.splitOn '/') := by
  cases path with
  | nil => exact .inl fun _ => rfl
  | cons c rest =>
      by_cases absolute : c = '/'
      · subst absolute
        exact .inr (.inl fun _ => rfl)
      · exact .inr (.inr fun d => by simp [resolve, absolute])

/-- Where a path leads is the same for any files. -/
theorem resolve_eq_ok (e : Directory) (h : d.resolve path = .ok place) :
    e.resolve path = .ok place := by
  obtain nowhere | absolute | relative := resolve_cases path
  · cases (nowhere d).symm.trans h
  · rw [absolute] at h ⊢
    exact h
  · rw [relative] at h ⊢
    exact walk_eq_ok e h

/-- The file that a walk comes to has the name that the walk ends with. -/
theorem getLast?_of_walk {components : List Text}
    (leads : d.walk components = .ok (.entry name false)) :
    components.getLast? = some name ∧ Path.IsName name := by
  induction components with
  | nil => cases leads
  | cons component rest ih =>
      obtain skip | above | ⟨proper, -, named⟩ | fails := walk_cons component rest
      · obtain ⟨last, proper⟩ := ih ((skip d).symm.trans leads)
        exact ⟨by rw [List.getLast?_cons, last, Option.getD_some], proper⟩
      · cases (above d).symm.trans leads
      · have reached := (named d).symm.trans leads
        simp only [Except.ok.injEq, Place.entry.injEq, decide_eq_false_iff_not, not_not] at reached
        obtain ⟨rfl, rfl⟩ := reached
        exact ⟨rfl, proper⟩
      · obtain ⟨e, failed⟩ := fails d
        cases failed.symm.trans leads

theorem walk_ne_null (components : List Text) : d.walk components ≠ .ok .null := by
  induction components with
  | nil => exact nofun
  | cons component rest ih =>
      obtain skip | above | ⟨-, -, named⟩ | fails := walk_cons component rest
      · exact skip d ▸ ih
      · simp [above d]
      · simp [named d]
      · obtain ⟨e, failed⟩ := fails d
        simp [failed]

/-- Nothing but directories and the null device is known from the root. -/
theorem walkRoot_eq_ok {below : Bool} {components : List Text}
    (leads : walkRoot below components = .ok place) :
    place = .directory ∨ place = .null ∧ components.getLast? = some "null".toList := by
  induction components generalizing below with
  | nil => exact .inl (Except.ok.inj leads).symm
  | cons component rest ih =>
      have later {below : Bool} (leads : walkRoot below rest = .ok place) :
          place = .directory ∨
            place = .null ∧ (component :: rest).getLast? = some "null".toList := by
        refine (ih leads).imp_right fun ⟨null, last⟩ => ⟨null, ?_⟩
        rw [List.getLast?_cons, last, Option.getD_some]
      simp only [walkRoot] at leads
      split_ifs at leads with skipped above long device only inside
      · exact later leads
      · exact later leads
      · rw [only, device.2]
        exact .inr ⟨(Except.ok.inj leads).symm, rfl⟩
      · exact later leads

/-- The file that a path leads to has the name that the path ends with. -/
theorem getLast?_of_resolve_entry (leads : d.resolve path = .ok (.entry name false)) :
    (path.splitOn '/').getLast? = some name ∧ Path.IsName name := by
  obtain nowhere | absolute | relative := resolve_cases path
  · cases (nowhere d).symm.trans leads
  · obtain directory | ⟨null, -⟩ := walkRoot_eq_ok ((absolute d).symm.trans leads)
    · cases directory
    · cases null
  · exact getLast?_of_walk ((relative d).symm.trans leads)

theorem getLast?_of_resolve_null (leads : d.resolve path = .ok .null) :
    (path.splitOn '/').getLast? = some "null".toList := by
  obtain nowhere | absolute | relative := resolve_cases path
  · cases (nowhere d).symm.trans leads
  · obtain directory | ⟨-, last⟩ := walkRoot_eq_ok ((absolute d).symm.trans leads)
    · cases directory
    · exact last
  · exact absurd ((relative d).symm.trans leads) (walk_ne_null _)

theorem resolve_of_read (held : d.read path = .ok bytes) :
    d.resolve path = .ok .null ∨ ∃ name, d.resolve path = .ok (.entry name false) := by
  obtain ⟨place, leads, found⟩ := Traversal.bind_eq_ok_iff.mp held
  cases place with
  | directory => cases found
  | null => exact .inl leads
  | entry name slash =>
      cases slash with
      | true => cases held : d.find? name <;> simp [held] at found
      | false => exact .inr ⟨name, leads⟩

/-- A path that is read ends in the name of what it leads to. -/
theorem getLast?_of_read (held : d.read path = .ok bytes) :
    ∃ name, (path.splitOn '/').getLast? = some name ∧ Path.IsName name := by
  obtain null | ⟨name, leads⟩ := resolve_of_read held
  · exact ⟨_, getLast?_of_resolve_null null, by decide⟩
  · exact ⟨name, getLast?_of_resolve_entry leads⟩

theorem write_eq_ok {after : Directory} (written : d.write path bytes = .ok after)
    (kept : d.resolve path ≠ .ok .null) :
    ∃ name, d.resolve path = .ok (.entry name false) ∧ after = d.put name bytes := by
  obtain ⟨place, leads, stored⟩ := Traversal.bind_eq_ok_iff.mp written
  cases place with
  | directory => cases stored
  | null => exact absurd leads kept
  | entry name slash =>
      cases slash with
      | true => cases held : d.find? name <;> simp [held] at stored
      | false => exact ⟨name, leads, (Except.ok.inj stored).symm⟩

theorem write_eq_put (leads : d.resolve path = .ok (.entry name false)) (bytes : List UInt8) :
    d.write path bytes = .ok (d.put name bytes) := by
  rw [write, leads]
  rfl

theorem read_put (leads : d.resolve path = .ok (.entry name false)) (bytes : List UInt8) :
    (d.put name bytes).read path = .ok bytes := by
  rw [read, resolve_eq_ok _ leads]
  simp only [bind, Except.bind, find?_put, if_true]
  rfl

theorem read_put_of_ne (held : d.read path = .ok bytes)
    (elsewhere : d.resolve path ≠ .ok (.entry name false)) (other : List UInt8) :
    (d.put name other).read path = .ok bytes := by
  obtain ⟨place, leads, found⟩ := Traversal.bind_eq_ok_iff.mp held
  rw [read, resolve_eq_ok _ leads]
  cases place with
  | directory => cases found
  | null => exact found
  | entry file slash =>
      simp only [bind, Except.bind, find?_put]
      cases slash with
      | true => cases held : d.find? file <;> simp [held] at found
      | false =>
          have apart : file ≠ name := by
            rintro rfl
            exact elsewhere leads
          rw [if_neg apart]
          exact found

end Directory
end SledeMachine
