import SledeMachine.CommandLine.Arguments
import SledeMachine.CommandLine.Task

/-!
What becomes of arguments that are no command to carry out. The texts that explain how the program
is used belong to the reader of arguments and are not given here, only how it ends with them.
-/

namespace SledeMachine
namespace CommandLine

def versionLine : Text := "slede8 0.1.0".toList

def Refusal.report : Refusal → Report
  | .usage => ⟨[], 2⟩
  | .help => ⟨[], 0⟩
  | .version => ⟨[.outLine versionLine], 0⟩

end CommandLine
end SledeMachine
