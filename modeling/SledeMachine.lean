import SledeMachine.Main
import SledeMachine.Proofs.Bounds
import SledeMachine.Proofs.CallStack
import SledeMachine.Proofs.Completion
import SledeMachine.Proofs.Consumption
import SledeMachine.Proofs.Course
import SledeMachine.Proofs.Editing
import SledeMachine.Proofs.Failure
import SledeMachine.Proofs.Finality
import SledeMachine.Proofs.History
import SledeMachine.Proofs.Inspection
import SledeMachine.Proofs.LabelReference
import SledeMachine.Proofs.Language
import SledeMachine.Proofs.LineByLine
import SledeMachine.Proofs.Listing
import SledeMachine.Proofs.LiteralGrammar
import SledeMachine.Proofs.MapEntries
import SledeMachine.Proofs.PlainListing
import SledeMachine.Proofs.Provenance
import SledeMachine.Proofs.Pulling
import SledeMachine.Proofs.PullRule
import SledeMachine.Proofs.RegisterGrammar
import SledeMachine.Proofs.Relisting
import SledeMachine.Proofs.Relocation
import SledeMachine.Proofs.Replay
import SledeMachine.Proofs.RunAndTrace
import SledeMachine.Proofs.SourceAndImage
import SledeMachine.Proofs.UnreadMemory
import SledeMachine.Proofs.WordStream
