import Brainfuck.Main
import Brainfuck.Workbench
import Brainfuck.Proofs.Brackets.Balanced
import Brainfuck.Proofs.Brackets.Nesting
import Brainfuck.Proofs.Brackets.Table
import Brainfuck.Proofs.Decoding.Reader
import Brainfuck.Proofs.Source.Edition
import Brainfuck.Proofs.Machine.Control
import Brainfuck.Proofs.Machine.Calls
import Brainfuck.Proofs.Tape.Moves
import Brainfuck.Proofs.Tree.Store
import Brainfuck.Proofs.Machine.Remarks
import Brainfuck.Proofs.Decoding.Brackets
import Brainfuck.Proofs.Machine.Nesting
import Brainfuck.Proofs.Machine.Structural
import Brainfuck.Proofs.Decoding.Repeats
import Brainfuck.Proofs.Machine.Twins
import Brainfuck.Proofs.Machine.Precompiled
import Brainfuck.Proofs.Tree.Block
import Brainfuck.Proofs.Tree.Walk
import Brainfuck.Proofs.Tree.Run
import Brainfuck.Proofs.Machine.Spelling
import Brainfuck.Proofs.Decoding.Places
import Brainfuck.Proofs.Stepper.Watching
import Brainfuck.Proofs.Machine.Places
import Brainfuck.Proofs.Machine.Faults
import Brainfuck.Proofs.Machine.Entered
import Brainfuck.Proofs.Machine.Stream
import Brainfuck.Proofs.Workbench.Calls
import Brainfuck.Proofs.Workbench.Alone
import Brainfuck.Proofs.Workbench.Subscriptions
import Brainfuck.Proofs.Text.Lines
import Brainfuck.Proofs.Stepper.Console
import Brainfuck.Proofs.Pacing.NextPrompt
import Brainfuck.Proofs.Stepper.Prompts
import Brainfuck.Proofs.Stepper.LoopExit
import Brainfuck.Proofs.Settings.Refusals
import Brainfuck.Proofs.Settings.Precedence
import Brainfuck.Proofs.Source.File
import Brainfuck.Proofs.Machine.Halting
import Brainfuck.Proofs.CommandLine.Options
import Brainfuck.Proofs.CommandLine.Requests
import Brainfuck.Proofs.CommandLine.ExitStatus
import Brainfuck.Proofs.Brackets.Pairing
import Brainfuck.Proofs.Source.Scanning
import Brainfuck.Proofs.Machine.Rules
import Brainfuck.Proofs.Machine.Unnested
import Brainfuck.Proofs.Machine.Limit
import Brainfuck.Proofs.Decoding.Draining
import Brainfuck.Proofs.Source.Reopening
import Brainfuck.Proofs.Source.Extent
import Brainfuck.Proofs.Machine.Faulted
import Brainfuck.Proofs.Workbench.Faulted
import Brainfuck.Proofs.Machine.TapeLength
import Brainfuck.Proofs.Machine.Stages
import Brainfuck.Proofs.Machine.MoveLoop
import Brainfuck.Proofs.Machine.Surroundings
import Brainfuck.Proofs.Machine.Input
import Brainfuck.Proofs.Source.Reports
import Brainfuck.Proofs.Tape.Writes
import Brainfuck.Proofs.Tape.Edits
import Brainfuck.Proofs.Tape.Walks
import Brainfuck.Proofs.Machine.Wraps
import Brainfuck.Proofs.Stepper.Foretold
import Brainfuck.Proofs.Text.Stripping
import Brainfuck.Proofs.Number.Decimal
import Brainfuck.Proofs.Settings.Environment
import Brainfuck.Proofs.Tape.Window
import Brainfuck.Proofs.Stepper.Display
import Brainfuck.Proofs.Stepper.Attached
