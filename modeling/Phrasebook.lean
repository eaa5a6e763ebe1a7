import Phrasebook.Command.Arguments
import Phrasebook.Command.Clean
import Phrasebook.Command.Invocation
import Phrasebook.Command.Renew
import Phrasebook.Command.Report
import Phrasebook.Command.Run
import Phrasebook.Command.Session
import Phrasebook.Data.Date
import Phrasebook.Data.Value
import Phrasebook.DataSet.Basic
import Phrasebook.DataSet.Edits
import Phrasebook.DataSet.Orphans
import Phrasebook.Disk.Basic
import Phrasebook.Disk.Find
import Phrasebook.Disk.Replace
import Phrasebook.Document.Block
import Phrasebook.Document.Cursor
import Phrasebook.Document.Lexer
import Phrasebook.Document.Node
import Phrasebook.Document.Plain
import Phrasebook.Document.Quoted
import Phrasebook.Document.Read
import Phrasebook.Document.Scalar
import Phrasebook.Document.Token
import Phrasebook.Failure
import Phrasebook.Format.Specifier
import Phrasebook.Glue.Assignment
import Phrasebook.Glue.Info
import Phrasebook.Glue.Reference
import Phrasebook.Glue.Summary
import Phrasebook.Job
import Phrasebook.Journal
import Phrasebook.Key.Algebra
import Phrasebook.Key.Lexicon
import Phrasebook.Key.Operation
import Phrasebook.Key.Order
import Phrasebook.Key.Set
import Phrasebook.Locale.Catalog
import Phrasebook.Locale.Entries
import Phrasebook.Locale.Guard
import Phrasebook.Locale.Merge
import Phrasebook.Main
import Phrasebook.Number.Double
import Phrasebook.Number.Fixed
import Phrasebook.Number.Share
import Phrasebook.Number.Shortest
import Phrasebook.Path.Basic
import Phrasebook.Path.Exclusion
import Phrasebook.Path.Pattern
import Phrasebook.Proofs.Command.Clean
import Phrasebook.Proofs.Command.Converge
import Phrasebook.Proofs.Command.Duplicates
import Phrasebook.Proofs.Command.KeptTexts
import Phrasebook.Proofs.Command.LookUps
import Phrasebook.Proofs.Command.Orphans
import Phrasebook.Proofs.Command.Renewal
import Phrasebook.Proofs.Command.Renewed
import Phrasebook.Proofs.Command.Scan
import Phrasebook.Proofs.Command.Session
import Phrasebook.Proofs.Command.Snapshot
import Phrasebook.Proofs.Command.UpToDate
import Phrasebook.Proofs.Data.Stamp
import Phrasebook.Proofs.DataSet.Edits
import Phrasebook.Proofs.DataSet.Machine
import Phrasebook.Proofs.DataSet.Orphans
import Phrasebook.Proofs.DataSet.Promotion
import Phrasebook.Proofs.DataSet.Reachable
import Phrasebook.Proofs.DataSet.Removal
import Phrasebook.Proofs.Disk.Find
import Phrasebook.Proofs.Disk.Frame
import Phrasebook.Proofs.Disk.Named
import Phrasebook.Proofs.Disk.Replace
import Phrasebook.Proofs.Disk.Tree
import Phrasebook.Proofs.Disk.Write
import Phrasebook.Proofs.Format.Grammar
import Phrasebook.Proofs.Format.Legible
import Phrasebook.Proofs.Format.Occurrence
import Phrasebook.Proofs.Glue.Assignment
import Phrasebook.Proofs.Glue.Bench
import Phrasebook.Proofs.Glue.Digest
import Phrasebook.Proofs.Glue.LookUp
import Phrasebook.Proofs.Glue.Merging
import Phrasebook.Proofs.Glue.Places
import Phrasebook.Proofs.Glue.Reference
import Phrasebook.Proofs.Glue.Rewriting
import Phrasebook.Proofs.Glue.Statement
import Phrasebook.Proofs.Glue.Summary
import Phrasebook.Proofs.Glue.Target
import Phrasebook.Proofs.Job
import Phrasebook.Proofs.Job.Course
import Phrasebook.Proofs.Job.Exchange
import Phrasebook.Proofs.Job.Reading
import Phrasebook.Proofs.Key.Algebra
import Phrasebook.Proofs.Key.History
import Phrasebook.Proofs.Key.Lexicon
import Phrasebook.Proofs.Key.Operation
import Phrasebook.Proofs.Key.Order
import Phrasebook.Proofs.Key.Set
import Phrasebook.Proofs.Key.Union
import Phrasebook.Proofs.Locale.Catalog
import Phrasebook.Proofs.Locale.Cleared
import Phrasebook.Proofs.Locale.Collapse
import Phrasebook.Proofs.Locale.Compose
import Phrasebook.Proofs.Locale.Entries
import Phrasebook.Proofs.Locale.Frame
import Phrasebook.Proofs.Locale.Fresh
import Phrasebook.Proofs.Locale.Guard
import Phrasebook.Proofs.Locale.Keys
import Phrasebook.Proofs.Locale.Layout
import Phrasebook.Proofs.Locale.Legible
import Phrasebook.Proofs.Locale.Merge
import Phrasebook.Proofs.Locale.Order
import Phrasebook.Proofs.Locale.Readback
import Phrasebook.Proofs.Locale.Regenerate
import Phrasebook.Proofs.Locale.Region
import Phrasebook.Proofs.Locale.Reread
import Phrasebook.Proofs.Locale.Spellings
import Phrasebook.Proofs.Locale.Stable
import Phrasebook.Proofs.Locale.Synthesis
import Phrasebook.Proofs.Locale.Unchanged
import Phrasebook.Proofs.Locale.Written
import Phrasebook.Proofs.Number.Power
import Phrasebook.Proofs.Number.Value
import Phrasebook.Proofs.Path.Exclusion
import Phrasebook.Proofs.Path.Names
import Phrasebook.Proofs.Path.Pattern
import Phrasebook.Proofs.Path.Text
import Phrasebook.Proofs.Settings.Accepted
import Phrasebook.Proofs.Settings.Readers
import Phrasebook.Proofs.Source.Bracket
import Phrasebook.Proofs.Source.Closed
import Phrasebook.Proofs.Source.Comment
import Phrasebook.Proofs.Source.Escape
import Phrasebook.Proofs.Source.Literal
import Phrasebook.Proofs.Source.Segment
import Phrasebook.Proofs.Source.Span
import Phrasebook.Proofs.Text.Blank
import Phrasebook.Proofs.Text.Lines
import Phrasebook.Proofs.Text.Newlines
import Phrasebook.Proofs.Text.Utf8
import Phrasebook.Proofs.Translation.Answered
import Phrasebook.Proofs.Translation.Batches
import Phrasebook.Proofs.Translation.Isolation
import Phrasebook.Proofs.Translation.Pauses
import Phrasebook.Proofs.Translation.Retries
import Phrasebook.Proofs.Translation.Sending
import Phrasebook.Proofs.Translation.Update
import Phrasebook.Proofs.Workspace.Accounts
import Phrasebook.Proofs.Workspace.Backup
import Phrasebook.Proofs.Workspace.BackupDelete
import Phrasebook.Proofs.Workspace.BackupHistory
import Phrasebook.Proofs.Workspace.BackupList
import Phrasebook.Proofs.Workspace.Batch
import Phrasebook.Proofs.Workspace.Calls
import Phrasebook.Proofs.Workspace.Collected
import Phrasebook.Proofs.Workspace.Dated
import Phrasebook.Proofs.Workspace.Failed
import Phrasebook.Proofs.Workspace.Files
import Phrasebook.Proofs.Workspace.Listing
import Phrasebook.Proofs.Workspace.Load
import Phrasebook.Proofs.Workspace.Machine
import Phrasebook.Proofs.Workspace.Reading
import Phrasebook.Proofs.Workspace.Resave
import Phrasebook.Proofs.Workspace.Restore
import Phrasebook.Proofs.Workspace.Save
import Phrasebook.Proofs.Workspace.Saving
import Phrasebook.Proofs.Workspace.Written
import Phrasebook.Settings.Basic
import Phrasebook.Settings.Check
import Phrasebook.Settings.Load
import Phrasebook.Settings.Problem
import Phrasebook.Settings.Read
import Phrasebook.Settings.Sample
import Phrasebook.Source.Bracket
import Phrasebook.Source.Comment
import Phrasebook.Source.Escape
import Phrasebook.Source.Literal
import Phrasebook.Text.Basic
import Phrasebook.Text.Blank
import Phrasebook.Text.Digit
import Phrasebook.Text.Fold
import Phrasebook.Text.FoldTable
import Phrasebook.Text.Lines
import Phrasebook.Text.PrintableTable
import Phrasebook.Text.Quoted
import Phrasebook.Text.Ranges
import Phrasebook.Text.Utf8
import Phrasebook.Text.Word
import Phrasebook.Text.WordTable
import Phrasebook.Translation.Exchange
import Phrasebook.Translation.Service
import Phrasebook.Translation.Update
import Phrasebook.Workspace.Backup
import Phrasebook.Workspace.Files
import Phrasebook.Workspace.Load
import Phrasebook.Workspace.Save
import Phrasebook.Workspace.Scan
