import Canon.CommandLine.Reading
import Canon.Disk.Creation
import Canon.Disk.Host
import Canon.File.Snapshot
import Canon.File.Statistics
import Canon.Identifier.Statistics
import Canon.Main
import Canon.Proofs.Disk.Unchanging
import Canon.Proofs.File.Accounts
import Canon.Proofs.File.Canonical
import Canon.Proofs.File.Identity
import Canon.Proofs.File.Parents
import Canon.Proofs.File.Permanence
import Canon.Proofs.File.Snapshot
import Canon.Proofs.Identifier.Levels
import Canon.Proofs.Identifier.Protocol
import Canon.Proofs.Identifier.Registration
import Canon.Proofs.Identifier.Repetition
import Canon.Proofs.Identifier.Standing
import Canon.Proofs.Identifier.Unpacked
import Canon.Proofs.Lexicon.Numbering
import Canon.Proofs.Lexicon.Slices
import Canon.Proofs.Overlay.Totality
import Canon.Proofs.Registry.Permanence
import Canon.Proofs.Run.Leading
import Canon.Proofs.Survey.Dump
import Canon.Proofs.Survey.Insertion
import Canon.Proofs.Survey.MainName
import Canon.Proofs.Text.Bytes
import Canon.Proofs.Text.Delivery
import Canon.Proofs.Text.Margins
import Canon.Proofs.Timing.Masked
import Canon.Run.Basic
import Canon.Survey
import Canon.Text.Repetition
