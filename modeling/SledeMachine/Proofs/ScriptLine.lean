import SledeMachine.Session

/-!
What a typed line asks of a session. Whatever the shell is, white space parts a line into words, and
its first word stands for the command whose name it begins, if there is exactly one. A line then
does one of four things: it leaves the run as it is, it pulls once, it pulls on or it stops the
session. It leaves the run as it is if it inspects the machine, and just as much if it names no
command or gives one the wrong number of arguments.
-/

namespace SledeMachine
namespace Session

namespace Command

/-- A word that begins the name of a command, and of no other. -/
def Named (word : Text) (command : Command) : Prop :=
  word <+: command.name ∧ ∀ other : Command, word <+: other.name → other = command

/-- The commands that only show something. -/
def Inspects (command : Command) : Prop := command ∈ [registers, peek, backtrace, output, help]

instance (command : Command) : Decidable command.Inspects :=
  inferInstanceAs (Decidable (_ ∈ _))

/-- As many arguments as a command asks for. -/
def Takes (command : Command) (args : List Text) : Prop :=
  ∀ expected ∈ command.arguments, args.length = expected.length

end Command

/-- The pieces of a text between blanks and tabs, empty ones included. -/
def pieces (t : Text) : List Text := t.splitOnP fun c => c = ' ' ∨ c = '\t'

/-- A character that takes nothing back and gives no other one a meaning. -/
def ordinary (c : Char) : Bool := c ∉ ['\\', '#', '\'', '"', '\x08']

/-- What is relied on of a shell: words are parted by white space, and a command is found by the
beginning of its name. -/
structure Shell.Lawful (shell : Shell) : Prop where
  /-- White space alone holds no words. -/
  blank : ∀ {typed : Text}, typed.all Text.isBlank = true → shell.words typed = .ok []
  /-- Blanks and tabs part a line of ordinary characters. -/
  parted : ∀ {typed : Text}, typed.all ordinary = true → typed.all Text.isBlank = false →
    shell.words typed = .ok ((pieces typed).filter (· ≠ []))
  wordless : ∃ shown, shell.resolve [] = .error shown
  named : ∀ {word : Text} {command : Command} {args : List Text}, Command.Named word command →
    command.Takes args → shell.resolve (word :: args) = .ok (command, args)
  /-- The number of arguments is checked before the command is carried out. -/
  miscounted : ∀ {word : Text} {command : Command} {args : List Text},
    Command.Named word command → ¬ command.Takes args →
    ∃ shown, shell.resolve (word :: args) = .error shown
  /-- A word that begins the name of no command, or the names of several, is not guessed at. -/
  unresolved : ∀ {word : Text} {args : List Text}, (∀ command, ¬ Command.Named word command) →
    ∃ shown, shell.resolve (word :: args) = .error shown

section
variable (shell : Shell) (typed : Text)

def Worded (words : List Text) : Prop := shell.words typed = .ok words

/-- A line resolves to a command, with arguments. -/
def Resolves (command : Command) (args : List Text) : Prop :=
  ∃ word, Worded shell typed (word :: args) ∧ Command.Named word command

/-- A line that leaves the run as it is and lets the session go on. -/
inductive Inert : Prop
  | blank (empty : typed.all Text.isBlank = true)
  /-- The line cannot be parted into words, as where a quote is not closed. -/
  | unworded {shown : List Text} (refused : shell.words typed = .error shown)
  | wordless (worded : Worded shell typed [])
  /-- The first word begins the name of no command, or the names of several. -/
  | unresolved {word : Text} {args : List Text} (worded : Worded shell typed (word :: args))
      (unknown : ∀ command, ¬ Command.Named word command)
  | miscounted {command : Command} {args : List Text}
      (resolves : Resolves shell typed command args) (miscounts : ¬ command.Takes args)
  | inspection {command : Command} {args : List Text}
      (resolves : Resolves shell typed command args) (inspects : command.Inspects)

/-- A line that stops the session. -/
def Stops : Prop :=
  Resolves shell typed .halt [] ∨ ∃ args, Resolves shell typed .quit args

end

/-- What goes to the diagnostics and is no log record. -/
def Diagnostic (written : Transcript) : Prop := ∀ piece ∈ written, ∃ line, piece = .err line

theorem diagnostic_lines (lines : List Text) : Diagnostic (lines.map .err) := by
  intro piece listed
  obtain ⟨line, -, rfl⟩ := List.mem_map.mp listed
  exact ⟨line, rfl⟩

namespace Command
variable {command : Command}

theorem takes_nil (bare : command.arguments = some []) : command.Takes [] := by
  intro expected asks
  rw [bare] at asks
  cases asks
  rfl

theorem takes_any (free : command.arguments = none) (args : List Text) : command.Takes args := by
  intro expected asks
  rw [free] at asks
  cases asks

end Command

section
variable {shell : Shell} (lawful : shell.Lawful) {typed word : Text} {words args : List Text}
  {command : Command} {s : Session}

theorem Resolves.unique {command' : Command} {args' : List Text}
    (h : Resolves shell typed command args) (h' : Resolves shell typed command' args') :
    command' = command ∧ args' = args := by
  obtain ⟨word, worded, -, only⟩ := h
  obtain ⟨word', worded', begins, -⟩ := h'
  obtain ⟨rfl, rfl⟩ := List.cons.inj (Except.ok.inj (worded.symm.trans worded'))
  exact ⟨only _ begins, rfl⟩

theorem Stops.not_resolves (stops : Stops shell typed) (other : command ≠ .halt)
    (other' : command ≠ .quit) : ¬ Resolves shell typed command args := by
  intro h
  obtain stops | ⟨args, stops⟩ := stops
  · exact other (stops.unique h).1
  · exact other' (stops.unique h).1

theorem resolved_cases (h : Resolves shell typed command args) :
    Inert shell typed ∨ Resolves shell typed .step [] ∨ Resolves shell typed .proceed [] ∨
      Stops shell typed := by
  by_cases takes : command.Takes args
  · have none (asks : command.arguments = some []) : args = [] :=
      List.length_eq_zero_iff.mp (takes [] asks)
    cases command with
    | step => exact .inr (.inl (none rfl ▸ h))
    | proceed => exact .inr (.inr (.inl (none rfl ▸ h)))
    | halt => exact .inr (.inr (.inr (.inl (none rfl ▸ h))))
    | quit => exact .inr (.inr (.inr (.inr ⟨args, h⟩)))
    | registers | peek | backtrace | output | help =>
        exact .inl (.inspection h (by decide))
  · exact .inl (.miscounted h takes)

/-- Every line does one of four things. -/
theorem line_cases (shell : Shell) (typed : Text) :
    Inert shell typed ∨ Resolves shell typed .step [] ∨ Resolves shell typed .proceed [] ∨
      Stops shell typed := by
  cases worded : shell.words typed with
  | error shown => exact .inl (.unworded worded)
  | ok words =>
      cases words with
      | nil => exact .inl (.wordless worded)
      | cons word args =>
          by_cases named : ∃ command, Command.Named word command
          · obtain ⟨command, named⟩ := named
            exact resolved_cases ⟨word, worded, named⟩
          · exact .inl (.unresolved worded (not_exists.mp named))

theorem answer_of_unworded {shown : List Text} (refused : shell.words typed = .error shown) :
    s.answer shell typed = (true, s, shown.map .err) := by
  rw [answer, Shell.read, refused]
  rfl

theorem answer_of_refused {shown : List Text} (worded : Worded shell typed words)
    (refused : shell.resolve words = .error shown) :
    s.answer shell typed = (true, s, shown.map .err) := by
  have read : shell.read typed = shell.resolve words := by rw [Shell.read, worded]; rfl
  rw [answer, read, refused]

theorem perform_of_inspects (inspects : command.Inspects) :
    ∃ written, s.perform shell command args = (true, s, written) ∧ Diagnostic written := by
  have peeked (token : Text) : Diagnostic (s.peekLines token) := by
    rw [peekLines]
    split <;> simp [Diagnostic]
  cases command with
  | step | proceed | halt | quit => exact absurd inspects (by decide)
  | registers => exact ⟨_, rfl, by simp [Diagnostic, registerLines, or_imp, forall_and]⟩
  | peek =>
      refine ⟨_, rfl, fun piece shown => ?_⟩
      obtain ⟨token, -, shown⟩ := List.mem_flatMap.mp shown
      exact peeked token piece shown
  | backtrace =>
      refine ⟨_, rfl, fun piece shown => ?_⟩
      obtain ⟨⟨back, depth⟩, -, rfl⟩ := List.mem_map.mp shown
      exact ⟨_, rfl⟩
  | output => exact ⟨_, rfl, by simp [Diagnostic, outputLines]⟩
  | help => exact ⟨_, rfl, diagnostic_lines shell.help⟩

include lawful

/-- A line that leaves the run as it is resolves to a command only to inspect, or in vain. -/
theorem Inert.not_resolves (inert : Inert shell typed) (acts : ¬ command.Inspects)
    (takes : command.Takes args) : ¬ Resolves shell typed command args := by
  intro h
  obtain ⟨word, worded, named⟩ := id h
  cases inert with
  | blank empty => cases Except.ok.inj (worded.symm.trans (lawful.blank empty))
  | unworded refused => cases worded.symm.trans refused
  | wordless empty => cases Except.ok.inj (worded.symm.trans empty)
  | unresolved also unknown =>
      obtain ⟨rfl, rfl⟩ := List.cons.inj (Except.ok.inj (worded.symm.trans also))
      exact unknown command named
  | miscounted resolves miscounts =>
      obtain ⟨rfl, rfl⟩ := h.unique resolves
      exact miscounts takes
  | inspection resolves inspects =>
      obtain ⟨rfl, rfl⟩ := h.unique resolves
      exact acts inspects

theorem Inert.not_step (inert : Inert shell typed) : ¬ Resolves shell typed .step [] :=
  inert.not_resolves lawful (by decide) (Command.takes_nil rfl)

theorem Inert.not_proceed (inert : Inert shell typed) : ¬ Resolves shell typed .proceed [] :=
  inert.not_resolves lawful (by decide) (Command.takes_nil rfl)

theorem Inert.not_stops (inert : Inert shell typed) : ¬ Stops shell typed := by
  rintro (h | ⟨args, h⟩)
  · exact inert.not_resolves lawful (by decide) (Command.takes_nil rfl) h
  · exact inert.not_resolves lawful (by decide) (Command.takes_any rfl args) h

theorem answer_of_resolves (h : Resolves shell typed command args) (takes : command.Takes args) :
    s.answer shell typed = s.perform shell command args := by
  obtain ⟨word, worded, named⟩ := h
  have read : shell.read typed = shell.resolve (word :: args) := by rw [Shell.read, worded]; rfl
  rw [answer, read, lawful.named named takes]

/-- A line that leaves the run as it is writes to the diagnostics, if anything. -/
theorem Inert.answer (inert : Inert shell typed) (s : Session) :
    ∃ written, s.answer shell typed = (true, s, written) ∧ Diagnostic written := by
  have refused {words : List Text} (worded : Worded shell typed words)
      (fails : ∃ shown, shell.resolve words = .error shown) :
      ∃ written, s.answer shell typed = (true, s, written) ∧ Diagnostic written := by
    obtain ⟨shown, fails⟩ := fails
    exact ⟨_, answer_of_refused worded fails, diagnostic_lines shown⟩
  cases inert with
  | blank empty => exact refused (lawful.blank empty) lawful.wordless
  | unworded refused => exact ⟨_, answer_of_unworded refused, diagnostic_lines _⟩
  | wordless worded => exact refused worded lawful.wordless
  | unresolved worded unknown => exact refused worded (lawful.unresolved unknown)
  | miscounted resolves miscounts =>
      obtain ⟨word, worded, named⟩ := resolves
      exact refused worded (lawful.miscounted named miscounts)
  | @inspection command args resolves inspects =>
      by_cases takes : command.Takes args
      · rw [answer_of_resolves lawful resolves takes]
        exact perform_of_inspects inspects
      · obtain ⟨word, worded, named⟩ := resolves
        exact refused worded (lawful.miscounted named takes)

end

end Session
end SledeMachine
