import SledeMachine.Proofs.Completion
import SledeMachine.Proofs.Terminal

/-!
What a session makes of the run. It pulls once at its start. From then on the lines decide: one that
steps pulls once, one that continues pulls until there is no snapshot, every other one leaves the
run as it is; and once the program has ended no line is read and nothing is pulled. So it makes no
difference to the pulls, nor to the run at the end, whether lines that only inspect the machine, or
do nothing at all, are left out, or whether a line that continues is spelled out in steps.
-/

namespace SledeMachine
namespace Session

/-- What is written for pulls that are made one after the other. -/
def pulledLines (map : DebugMap) : Run → List Pull → Transcript
  | _, [] => []
  | r, pull :: pulls =>
      r.events.map .log ++ endLines map pull r.next.2 ++ pulledLines map r.next.2 pulls

/-- Pulls that are made one after the other, each while the program goes on. -/
inductive Pulls : Run → List Pull → Run → Prop
  | none {r : Run} : Pulls r [] r
  | pull {r between last : Run} {pull : Pull} {pulls : List Pull} (continues : r.Continues)
      (made : r.next = (pull, between)) (rest : Pulls between pulls last) :
      Pulls r (pull :: pulls) last

/-- Pulls until there is no snapshot. -/
inductive PullsOn : Run → List Pull → Run → Prop
  | last {r last : Run} {pull : Pull} (made : r.next = (pull, last))
      (other : ∀ m, pull ≠ some (.ok m)) : PullsOn r [pull] last
  | more {r between last : Run} {m : Machine} {pulls : List Pull}
      (made : r.next = (some (.ok m), between)) (rest : PullsOn between pulls last) :
      PullsOn r (some (.ok m) :: pulls) last

/-- What a line that does not stop the session makes of the run: the pulls, the run after them and
what is written. -/
inductive Carries (shell : Shell) (map : DebugMap) (r : Run) (line : Text) :
    List Pull → Run → Transcript → Prop
  | inert {written : Transcript} (inert : Inert shell line) (shown : Diagnostic written) :
      Carries shell map r line [] r written
  | step {pull : Pull} {after : Run} (resolves : Resolves shell line .step [])
      (made : r.next = (pull, after)) :
      Carries shell map r line [pull] after (pulledLines map r [pull])
  | proceed {pulls : List Pull} {after : Run} (resolves : Resolves shell line .proceed [])
      (made : PullsOn r pulls after) :
      Carries shell map r line pulls after (pulledLines map r pulls)

/-- What a script makes of the run from a prompt on. Before each line it is seen whether the program
has ended. -/
inductive Follows (shell : Shell) (map : DebugMap) :
    Run → List Text → List Pull → Run → Transcript → Prop
  | ended {r : Run} {lines : List Text} (idle : ¬ r.Continues) :
      Follows shell map r lines [] r [.err []]
  | exhausted {r : Run} (continues : r.Continues) :
      Follows shell map r [] [] r (.err [] :: prompt ⟨r, map⟩)
  | stops {r : Run} {line : Text} {lines : List Text} (continues : r.Continues)
      (stops : Stops shell line) :
      Follows shell map r (line :: lines) [] r (.err [] :: prompt ⟨r, map⟩)
  | goes {r between last : Run} {line : Text} {lines : List Text} {own pulls : List Pull}
      {written later : Transcript} (continues : r.Continues)
      (carries : Carries shell map r line own between written)
      (rest : Follows shell map between lines pulls last later) :
      Follows shell map r (line :: lines) (own ++ pulls) last
        (.err [] :: prompt ⟨r, map⟩ ++ written ++ later)

/-- What a whole session makes of the run: a pull at the start, and the script if there was a
snapshot. -/
inductive Holds (shell : Shell) (map : DebugMap) (r : Run) (lines : List Text) :
    List Pull → Run → Transcript → Prop
  | opens {m : Machine} {first last : Run} {pulls : List Pull} {later : Transcript}
      (made : r.next = (some (.ok m), first))
      (rest : Follows shell map first lines pulls last later) :
      Holds shell map r lines (some (.ok m) :: pulls) last
        (.err "SLEDE8 Debug REPL".toList :: pulledLines map r [some (.ok m)] ++ later)
  | fails {pull : Pull} {last : Run} (made : r.next = (pull, last))
      (other : ∀ m, pull ≠ some (.ok m)) :
      Holds shell map r lines [pull] last
        (.err "SLEDE8 Debug REPL".toList :: pulledLines map r [pull])

/-- A script without some of the lines that leave the run as it is. -/
inductive Thins (shell : Shell) : List Text → List Text → Prop
  | nil : Thins shell [] []
  | keep {lines kept : List Text} (line : Text) (rest : Thins shell lines kept) :
      Thins shell (line :: lines) (line :: kept)
  | drop {line : Text} {lines kept : List Text} (inert : Inert shell line)
      (rest : Thins shell lines kept) : Thins shell (line :: lines) kept

section
variable {shell : Shell} (lawful : shell.Lawful) {map : DebugMap} {r between last : Run}
  {line : Text} {lines kept steps : List Text} {pulls own : List Pull} {written : Transcript}

theorem Pulls.append (h : Pulls r own between) (h' : Pulls between pulls last) :
    Pulls r (own ++ pulls) last := by
  induction h with
  | none => exact h'
  | pull continues made _ ih => exact .pull continues made (ih h')

theorem continues_of_snapshot {m : Machine} (made : r.next = (some (.ok m), between)) :
    between.Continues :=
  (Run.gives_of_next made).continues_iff.mpr ⟨m, rfl⟩

namespace PullsOn

theorem unique {own' : List Pull} {between' : Run} (h : PullsOn r own between)
    (h' : PullsOn r own' between') : own' = own ∧ between' = between := by
  induction h generalizing own' with
  | last made other =>
      cases h' with
      | last made' =>
          obtain ⟨rfl, rfl⟩ := Prod.mk.inj (made.symm.trans made')
          exact ⟨rfl, rfl⟩
      | more made' =>
          obtain ⟨rfl, -⟩ := Prod.mk.inj (made.symm.trans made')
          exact absurd rfl (other _)
  | more made _ ih =>
      cases h' with
      | last made' other =>
          obtain ⟨rfl, -⟩ := Prod.mk.inj (made.symm.trans made')
          exact absurd rfl (other _)
      | more made' rest' =>
          obtain ⟨snapshot, rfl⟩ := Prod.mk.inj (made.symm.trans made')
          obtain ⟨rfl, rfl⟩ := ih rest'
          exact ⟨by rw [snapshot], rfl⟩

theorem ended (h : PullsOn r own between) : ¬ between.Continues := by
  induction h with
  | last made other => exact (Run.gives_of_next made).ended other
  | more _ _ ih => exact ih

theorem pulls_made (h : PullsOn r own between) (continues : r.Continues) : Pulls r own between := by
  induction h with
  | last made _ => exact .pull continues made .none
  | more made _ ih => exact .pull continues made (ih (continues_of_snapshot made))

end PullsOn

theorem Carries.pulls_made (h : Carries shell map r line own between written)
    (continues : r.Continues) : Pulls r own between := by
  cases h with
  | inert => exact .none
  | step _ made => exact .pull continues made .none
  | proceed _ made => exact made.pulls_made continues

theorem Follows.of_ended (h : Follows shell map r lines pulls last written) (idle : ¬ r.Continues) :
    pulls = [] ∧ last = r := by
  cases h with
  | ended => exact ⟨rfl, rfl⟩
  | exhausted continues | stops continues | goes continues => exact absurd continues idle

theorem Follows.pulls_made (h : Follows shell map r lines pulls last written) :
    Pulls r pulls last := by
  induction h with
  | ended | exhausted | stops => exact .none
  | goes continues carries _ ih => exact (carries.pulls_made continues).append ih

theorem Holds.pulls_made (h : Holds shell map r lines pulls last written)
    (continues : r.Continues) : Pulls r pulls last := by
  cases h with
  | opens made rest => exact .pull continues made rest.pulls_made
  | fails made => exact .pull continues made .none

/-- Enough steps pull as far as a line that continues, and what stands behind them is not read. -/
theorem PullsOn.follows (h : PullsOn r own between) (continues : r.Continues)
    (single : ∀ line ∈ steps, Resolves shell line .step []) (enough : own.length ≤ steps.length)
    (map : DebugMap) (lines : List Text) :
    ∃ written, Follows shell map r (steps ++ lines) own between written := by
  induction h generalizing steps with
  | last made other =>
      obtain ⟨line, steps, rfl⟩ := List.exists_cons_of_length_pos enough
      have idle := (Run.gives_of_next made).ended other
      exact ⟨_, .goes continues (.step (single line List.mem_cons_self) made) (.ended idle)⟩
  | more made _ ih =>
      obtain ⟨line, steps, rfl⟩ := List.exists_cons_of_length_pos (Nat.zero_lt_of_lt enough)
      obtain ⟨_, follows⟩ := ih (continues_of_snapshot made)
        (fun line member => single line (List.mem_cons_of_mem _ member))
        (Nat.le_of_succ_le_succ enough)
      exact ⟨_, .goes continues (.step (single line List.mem_cons_self) made) follows⟩

theorem ended_iff {s : Session} : s.ended = true ↔ ¬ s.run.Continues := by
  cases phase : s.run.phase <;> simp [ended, Run.Continues, phase]

theorem converse_of_ended (map : DebugMap) (idle : ¬ r.Continues) (lines : List Text) :
    converse shell ⟨r, map⟩ lines = (⟨r, map⟩, [.err []]) := by
  have ended : ended ⟨r, map⟩ := ended_iff.mpr idle
  cases lines <;> simp [converse, ended]

theorem step_eq (map : DebugMap) (r : Run) :
    Session.step ⟨r, map⟩ =
      (r.next.1 matches some (.ok _), ⟨r.next.2, map⟩, pulledLines map r [r.next.1]) := by
  cases given : r.next with
  | mk pull after =>
      obtain _ | (fault | m) := pull <;> simp [Session.step, pulledLines, given]

/-- What continuing makes of the run, with what was noted before. -/
theorem exists_pullsOn (map : DebugMap) (log : Array Piece) (r : Run) :
    ∃ own between noted fault, PullsOn r own between ∧
      r.drain (fun (log : Array Piece) before _ => log ++ before.events.map Piece.log) log =
        (noted, fault, between) ∧
      noted.toList ++ endLines map (fault.map .error) between =
        log.toList ++ pulledLines map r own := by
  induction log, r using Run.drain.induct
      (fun (log : Array Piece) before _ => log ++ before.events.map Piece.log) with
  | case1 log r m between made ih =>
      obtain ⟨own, last, noted, fault, pulled, drained, written⟩ := ih
      rw [Run.drain_of_snapshot made]
      refine ⟨_, last, noted, fault, .more made pulled, drained, ?_⟩
      rw [written]
      simp [pulledLines, made, endLines]
  | case2 log r fault last made =>
      rw [Run.drain_of_error made]
      refine ⟨_, last, _, some fault, .last made (by simp), rfl, ?_⟩
      simp [pulledLines, made]
  | case3 log r last made =>
      rw [Run.drain_of_none made]
      refine ⟨_, last, _, none, .last made (by simp), rfl, ?_⟩
      simp [pulledLines, made]

theorem exists_runOn (map : DebugMap) (r : Run) :
    ∃ own between, PullsOn r own between ∧
      runOn ⟨r, map⟩ = (⟨between, map⟩, pulledLines map r own) := by
  obtain ⟨own, between, noted, fault, pulled, drained, written⟩ := exists_pullsOn map #[] r
  refine ⟨own, between, pulled, ?_⟩
  simp only [runOn, drained, written, List.nil_append]

include lawful

theorem Carries.unique {own' : List Pull} {between' : Run} {written' : Transcript}
    (h : Carries shell map r line own between written)
    (h' : Carries shell map r line own' between' written') :
    own' = own ∧ between' = between := by
  have apart : ¬ (Resolves shell line .step [] ∧ Resolves shell line .proceed []) := fun both =>
    absurd (both.1.unique both.2).1 (by decide)
  cases h with
  | inert inert _ =>
      cases h' with
      | inert => exact ⟨rfl, rfl⟩
      | step resolves => exact absurd resolves (inert.not_step lawful)
      | proceed resolves => exact absurd resolves (inert.not_proceed lawful)
  | step resolves made =>
      cases h' with
      | inert inert => exact absurd resolves (inert.not_step lawful)
      | step _ made' =>
          obtain ⟨rfl, rfl⟩ := Prod.mk.inj (made.symm.trans made')
          exact ⟨rfl, rfl⟩
      | proceed resolves' => exact absurd ⟨resolves, resolves'⟩ apart
  | proceed resolves made =>
      cases h' with
      | inert inert => exact absurd resolves (inert.not_proceed lawful)
      | step resolves' => exact absurd ⟨resolves', resolves⟩ apart
      | proceed _ made' => exact made.unique made'

theorem Carries.not_stops (h : Carries shell map r line own between written) :
    ¬ Stops shell line := by
  cases h with
  | inert inert => exact inert.not_stops lawful
  | step resolves => exact fun stops => stops.not_resolves (by decide) (by decide) resolves
  | proceed resolves => exact fun stops => stops.not_resolves (by decide) (by decide) resolves

theorem Follows.unique {pulls' : List Pull} {last' : Run} {written' : Transcript}
    (h : Follows shell map r lines pulls last written)
    (h' : Follows shell map r lines pulls' last' written') :
    pulls' = pulls ∧ last' = last := by
  induction h generalizing pulls' written' with
  | ended idle => exact h'.of_ended idle
  | exhausted =>
      cases h' with
      | ended | exhausted => exact ⟨rfl, rfl⟩
  | stops continues stops =>
      cases h' with
      | ended | stops => exact ⟨rfl, rfl⟩
      | goes _ carries => exact absurd stops (carries.not_stops lawful)
  | goes continues carries _ ih =>
      cases h' with
      | ended idle => exact absurd continues idle
      | stops _ stops => exact absurd stops (carries.not_stops lawful)
      | goes _ carries' rest' =>
          obtain ⟨rfl, rfl⟩ := carries.unique lawful carries'
          obtain ⟨rfl, rfl⟩ := ih rest'
          exact ⟨rfl, rfl⟩

/-- Lines that leave the run as it is may be left out. -/
theorem Follows.thinned (h : Follows shell map r lines pulls last written)
    (thins : Thins shell lines kept) :
    ∃ written', Follows shell map r kept pulls last written' := by
  induction h generalizing kept with
  | ended idle => exact ⟨_, .ended idle⟩
  | exhausted continues =>
      cases thins
      exact ⟨_, .exhausted continues⟩
  | stops continues stops =>
      cases thins with
      | keep => exact ⟨_, .stops continues stops⟩
      | drop inert => exact absurd stops (inert.not_stops lawful)
  | goes continues carries _ ih =>
      cases thins with
      | keep _ rest =>
          obtain ⟨_, follows⟩ := ih rest
          exact ⟨_, .goes continues carries follows⟩
      | drop inert rest =>
          cases carries with
          | inert => exact ih rest
          | step resolves => exact absurd resolves (inert.not_step lawful)
          | proceed resolves => exact absurd resolves (inert.not_proceed lawful)

/-- A line that continues may be spelled out in steps, as many as it pulls. -/
theorem Follows.unrolled {before after : List Text}
    (h : Follows shell map r (before ++ line :: after) pulls last written)
    (resolves : Resolves shell line .proceed [])
    (single : ∀ line ∈ steps, Resolves shell line .step [])
    (enough : ∀ earlier between written, Follows shell map r before earlier between written →
      pulls.length ≤ earlier.length + steps.length) :
    ∃ written', Follows shell map r (before ++ (steps ++ after)) pulls last written' := by
  -- The lines before pull the same in both scripts, so the steps are still enough without them.
  induction before generalizing r pulls written with
  | nil =>
      cases h with
      | ended idle => exact ⟨_, .ended idle⟩
      | stops _ stops => exact absurd resolves (stops.not_resolves (by decide) (by decide))
      | goes continues carries rest =>
          cases carries with
          | inert inert => exact absurd resolves (inert.not_proceed lawful)
          | step resolves' => exact absurd (resolves.unique resolves').1 (by decide)
          | proceed _ made =>
              obtain ⟨rfl, rfl⟩ := rest.of_ended made.ended
              have enough := enough _ _ _ (.exhausted continues)
              simp only [List.append_nil, List.length_nil, Nat.zero_add] at enough
              rw [List.append_nil]
              exact made.follows continues single enough map after
  | cons first before ih =>
      cases h with
      | ended idle => exact ⟨_, .ended idle⟩
      | stops continues stops => exact ⟨_, .stops continues stops⟩
      | @goes _ between _ _ _ own pulls _ _ continues carries rest =>
          have enough (earlier : List Pull) (between' : Run) (written : Transcript)
              (follows : Follows shell map between before earlier between' written) :
              pulls.length ≤ earlier.length + steps.length := by
            have whole := enough _ _ _ (.goes continues carries follows)
            rw [List.length_append, List.length_append] at whole
            omega
          obtain ⟨_, follows⟩ := ih rest enough
          exact ⟨_, .goes continues carries follows⟩

theorem answer_of_stops (map : DebugMap) (r : Run) (stops : Stops shell line) :
    answer shell ⟨r, map⟩ line = (false, ⟨r, map⟩, []) := by
  obtain resolves | ⟨args, resolves⟩ := stops
  · exact answer_of_resolves lawful resolves (Command.takes_nil rfl)
  · exact answer_of_resolves lawful resolves (Command.takes_any rfl args)

/-- A line that does not stop the session is answered as it is to be. -/
theorem exists_carries (map : DebugMap) (r : Run) (other : ¬ Stops shell line) :
    ∃ own between written, Carries shell map r line own between written ∧
      answer shell ⟨r, map⟩ line = (true, ⟨between, map⟩, written) := by
  obtain inert | resolves | resolves | stops := line_cases shell line
  · obtain ⟨written, answered, shown⟩ := inert.answer lawful ⟨r, map⟩
    exact ⟨_, _, written, .inert inert shown, answered⟩
  · refine ⟨[r.next.1], r.next.2, _, .step resolves rfl, ?_⟩
    rw [answer_of_resolves lawful resolves (Command.takes_nil rfl)]
    simp only [perform, step_eq]
  · obtain ⟨own, between, pulled, continued⟩ := exists_runOn map r
    refine ⟨own, between, _, .proceed resolves pulled, ?_⟩
    rw [answer_of_resolves lawful resolves (Command.takes_nil rfl)]
    simp only [perform, continued]
  · exact absurd stops other

/-- Reading lines does what the script makes of the run. -/
theorem exists_follows (map : DebugMap) (lines : List Text) (r : Run) :
    ∃ pulls last written, Follows shell map r lines pulls last written ∧
      converse shell ⟨r, map⟩ lines = (⟨last, map⟩, written) := by
  induction lines generalizing r with
  | nil =>
      by_cases continues : r.Continues
      · have live : ¬ ended ⟨r, map⟩ := ended_iff.not.mpr (not_not.mpr continues)
        exact ⟨_, _, _, .exhausted continues, by simp [converse, live]⟩
      · exact ⟨_, _, _, .ended continues, converse_of_ended map continues _⟩
  | cons line lines ih =>
      by_cases continues : r.Continues
      · have live : ¬ ended ⟨r, map⟩ := ended_iff.not.mpr (not_not.mpr continues)
        by_cases stops : Stops shell line
        · refine ⟨_, _, _, .stops continues stops, ?_⟩
          simp [converse, live, answer_of_stops lawful map r stops]
        · obtain ⟨own, between, written, carries, answered⟩ := exists_carries lawful map r stops
          obtain ⟨pulls, last, later, follows, conversed⟩ := ih between
          refine ⟨_, _, _, .goes continues carries follows, ?_⟩
          simp [converse, live, answered, conversed]
      · exact ⟨_, _, _, .ended continues, converse_of_ended map continues _⟩

theorem exists_holds (map : DebugMap) (r : Run) (lines : List Text) :
    ∃ pulls last written, Holds shell map r lines pulls last written ∧
      hold shell ⟨r, map⟩ lines = (⟨last, map⟩, written) := by
  cases made : r.next with
  | mk pull first =>
      obtain _ | (fault | m) := pull
      · exact ⟨_, _, _, .fails made (by simp), by simp [hold, start, step_eq, made]⟩
      · exact ⟨_, _, _, .fails made (by simp), by simp [hold, start, step_eq, made]⟩
      · obtain ⟨pulls, last, later, follows, conversed⟩ := exists_follows lawful map lines first
        exact ⟨_, _, _, .opens made follows, by simp [hold, start, step_eq, made, conversed]⟩

namespace Holds

theorem unique {pulls' : List Pull} {last' : Run} {written' : Transcript}
    (h : Holds shell map r lines pulls last written)
    (h' : Holds shell map r lines pulls' last' written') :
    pulls' = pulls ∧ last' = last := by
  cases h with
  | opens made rest =>
      cases h' with
      | opens made' rest' =>
          obtain ⟨snapshot, rfl⟩ := Prod.mk.inj (made.symm.trans made')
          obtain ⟨rfl, rfl⟩ := rest.unique lawful rest'
          exact ⟨by rw [snapshot], rfl⟩
      | fails made' other =>
          obtain ⟨rfl, -⟩ := Prod.mk.inj (made.symm.trans made')
          exact absurd rfl (other _)
  | fails made other =>
      cases h' with
      | opens made' =>
          obtain ⟨rfl, -⟩ := Prod.mk.inj (made.symm.trans made')
          exact absurd rfl (other _)
      | fails made' =>
          obtain ⟨rfl, rfl⟩ := Prod.mk.inj (made.symm.trans made')
          exact ⟨rfl, rfl⟩

/-- A session leaves the run where its script does. -/
theorem hold (h : Holds shell map r lines pulls last written) :
    (Session.hold shell ⟨r, map⟩ lines).1 = ⟨last, map⟩ ∧
      Holds shell map r lines pulls (Session.hold shell ⟨r, map⟩ lines).1.run
        (Session.hold shell ⟨r, map⟩ lines).2 := by
  obtain ⟨pulls', last', written', also, held⟩ := exists_holds lawful map r lines
  obtain ⟨rfl, rfl⟩ := h.unique lawful also
  rw [held]
  exact ⟨rfl, also⟩

theorem thinned (h : Holds shell map r lines pulls last written) (thins : Thins shell lines kept) :
    ∃ written', Holds shell map r kept pulls last written' := by
  cases h with
  | opens made rest =>
      obtain ⟨_, follows⟩ := rest.thinned lawful thins
      exact ⟨_, .opens made follows⟩
  | fails made other => exact ⟨_, .fails made other⟩

theorem unrolled {before after : List Text}
    (h : Holds shell map r (before ++ line :: after) pulls last written)
    (resolves : Resolves shell line .proceed [])
    (single : ∀ line ∈ steps, Resolves shell line .step [])
    (enough : ∀ earlier between written, Holds shell map r before earlier between written →
      pulls.length ≤ earlier.length + steps.length) :
    ∃ written', Holds shell map r (before ++ (steps ++ after)) pulls last written' := by
  cases h with
  | @opens _ first _ pulls _ made rest =>
      have enough (earlier : List Pull) (between : Run) (written : Transcript)
          (follows : Follows shell map first before earlier between written) :
          pulls.length ≤ earlier.length + steps.length := by
        have whole := enough _ _ _ (.opens made follows)
        rw [List.length_cons, List.length_cons] at whole
        omega
      obtain ⟨_, follows⟩ := rest.unrolled lawful resolves single enough
      exact ⟨_, .opens made follows⟩
  | fails made other => exact ⟨_, .fails made other⟩

end Holds

end

/-- Only the lines that step and those that continue pull, and none does once the program has ended.
So the same pulls are made, and the session ends alike, without lines that leave the run as it is
and with steps, as many as it pulls, for a line that continues. -/
theorem inspection_leaves_run {shell : Shell} (lawful : shell.Lawful) {image : List UInt8}
    {input : Array UInt8} {r : Run} (loaded : Run.load image input = .ok r) (budget : Nat)
    (map : DebugMap) (lines : List Text) :
    let fresh := r.withMaxTicks budget
    let held (lines : List Text) := hold shell ⟨fresh, map⟩ lines
    ∃ pulls, Holds shell map fresh lines pulls (held lines).1.run (held lines).2 ∧
      (∀ pulls' last written, Holds shell map fresh lines pulls' last written →
        pulls' = pulls ∧ last = (held lines).1.run) ∧
      Pulls fresh pulls (held lines).1.run ∧
      (∀ kept, Thins shell lines kept →
        (held kept).1 = (held lines).1 ∧
          Holds shell map fresh kept pulls (held kept).1.run (held kept).2) ∧
      ∀ before line after steps, lines = before ++ line :: after →
        Resolves shell line .proceed [] → (∀ step ∈ steps, Resolves shell step .step []) →
        (∀ earlier between written, Holds shell map fresh before earlier between written →
          pulls.length ≤ earlier.length + steps.length) →
        let spelled := before ++ (steps ++ after)
        (held spelled).1 = (held lines).1 ∧
          Holds shell map fresh spelled pulls (held spelled).1.run (held spelled).2 := by
  intro fresh held
  have continues : fresh.Continues := .inl (show r.phase = .loaded from Run.phase_of_load loaded)
  obtain ⟨pulls, last, written, holds, ended⟩ := exists_holds lawful map fresh lines
  have ends : held lines = (⟨last, map⟩, written) := ended
  refine ⟨pulls, ?_⟩
  rw [ends]
  refine ⟨holds, fun _ _ _ => holds.unique lawful, holds.pulls_made continues, ?_, ?_⟩
  · intro kept thins
    obtain ⟨_, also⟩ := holds.thinned lawful thins
    exact also.hold lawful
  · rintro before line after steps rfl resolves single enough
    obtain ⟨_, also⟩ := holds.unrolled lawful resolves single enough
    exact also.hold lawful

/-- The program stops at once. Showing the registers makes no difference at a terminal, and to
continue is to step once. -/
theorem inspection_leaves_run_stopped :
    let m : Machine := ⟨0, false, .zero, .ofProgram [0x00, 0x00], #[], 0, []⟩
    let r : Run := ⟨m, #[], 1000, 0, .loaded⟩
    let shell : Shell := .terminal
    let held (lines : List Text) := hold shell ⟨r.withMaxTicks 10, .empty⟩ lines
    let shown := "pr".toList
    let continued := "c".toList
    let stepped := "s".toList
    (shell.Lawful ∧ Run.load (Image.tag ++ [0x00, 0x00]) #[] = .ok r) ∧
      Inert shell shown ∧ Resolves shell continued .proceed [] ∧ Resolves shell stepped .step [] ∧
      (held [continued]).1 = (held [shown, continued]).1 ∧
      (held [shown, stepped]).1 = (held [shown, continued]).1 := by
  intro m r shell held shown continued stepped
  have lawful : shell.Lawful := Shell.lawful_terminal
  have accepted : Run.load (Image.tag ++ [0x00, 0x00]) #[] = .ok r := rfl
  have resolves (command : Command) (plain : command.name.all ordinary = true)
      (filled : command.name.all Text.isBlank = false)
      (parts : (pieces command.name).filter (· ≠ []) = [command.name])
      (only : ∀ other : Command, command.name <+: other.name → other = command) :
      Resolves shell command.name command [] :=
    ⟨command.name, parts ▸ lawful.parted plain filled, List.prefix_rfl, only⟩
  have shows : Inert shell shown :=
    .inspection (resolves .registers (by decide) (by decide) (by decide)
      (by intro other; cases other <;> decide)) (by decide)
  have continues : Resolves shell continued .proceed [] :=
    resolves .proceed (by decide) (by decide) (by decide) (by intro other; cases other <;> decide)
  have steps : Resolves shell stepped .step [] :=
    resolves .step (by decide) (by decide) (by decide) (by intro other; cases other <;> decide)
  let paused : Run := ⟨m, #[], 10, 1, .paused⟩
  let halted : Run := ⟨{ m with pc := 2 }, #[], 10, 1, .halted⟩
  have first : (r.withMaxTicks 10).next = (some (.ok m), paused) := rfl
  have halt : m.current? = some .halt :=
    (Machine.current?_of_program (m := m) rfl (by decide)).trans (by decide)
  have second : paused.next = (none, halted) := Run.next_of_current (r := paused) rfl halt
  have live : paused.Continues := .inr rfl
  have idle : ¬ halted.Continues := by simp [halted, Run.Continues]
  have follows : Holds shell .empty (r.withMaxTicks 10) [shown, continued]
      (some (.ok m) :: ([] ++ ([none] ++ []))) halted _ :=
    .opens first (.goes live (@Carries.inert _ _ _ _ [] shows (by simp [Diagnostic]))
      (.goes live (.proceed continues (.last second (by simp))) (.ended idle)))
  obtain ⟨pulls, -, unique, -, thinned, unrolled⟩ :=
    inspection_leaves_run lawful accepted 10 .empty [shown, continued]
  obtain ⟨rfl, -⟩ := unique _ _ _ follows
  have opening (earlier : List Pull) (between : Run) (written : Transcript)
      (h : Holds shell .empty (r.withMaxTicks 10) [shown] earlier between written) :
      2 ≤ earlier.length + 1 := by
    cases h <;> simp
  refine ⟨⟨lawful, accepted⟩, shows, continues, steps, ?_, ?_⟩
  · exact (thinned [continued] (.drop shows (.keep continued .nil))).1
  · have single : ∀ line ∈ [stepped], Resolves shell line .step [] :=
      List.forall_mem_singleton.mpr steps
    exact (unrolled [shown] continued [] [stepped] rfl continues single opening).1

end Session
end SledeMachine
