import GameInstaller.Archive.Extract
import GameInstaller.Archive.Format
import GameInstaller.Archive.Tar.Header
import GameInstaller.Archive.Tar.Member
import GameInstaller.Archive.Tar.Unpack
import GameInstaller.Archive.Zip.Directory
import GameInstaller.Archive.Zip.Unpack
import GameInstaller.Cli.Request
import GameInstaller.Cli.Run
import GameInstaller.Cli.Usage
import GameInstaller.Command.Basic
import GameInstaller.Command.Bind
import GameInstaller.Command.Params
import GameInstaller.Command.Schema
import GameInstaller.Compression.Bits
import GameInstaller.Compression.Bzip2
import GameInstaller.Compression.Checks
import GameInstaller.Compression.Deflate
import GameInstaller.Compression.Zstd.Block
import GameInstaller.Compression.Zstd.Codes
import GameInstaller.Compression.Zstd.Frame
import GameInstaller.Config.Store
import GameInstaller.Decimal.Binary64
import GameInstaller.Decimal.Shortest
import GameInstaller.Digest.Algorithm
import GameInstaller.Digest.Blake3
import GameInstaller.Digest.Blocks
import GameInstaller.Digest.File
import GameInstaller.Disk.Basic
import GameInstaller.Disk.Calls
import GameInstaller.Disk.IoError
import GameInstaller.Disk.Resolve
import GameInstaller.Disk.Transfer
import GameInstaller.Environment
import GameInstaller.Install.Apply
import GameInstaller.Install.Context
import GameInstaller.Install.Error
import GameInstaller.Install.Host
import GameInstaller.Install.Machine
import GameInstaller.Install.Rehearsal
import GameInstaller.Install.Run
import GameInstaller.Install.Session
import GameInstaller.Journal.Event
import GameInstaller.Journal.Log
import GameInstaller.Json.Reader
import GameInstaller.Json.Value
import GameInstaller.Json.Writer
import GameInstaller.Library
import GameInstaller.Main
import GameInstaller.Operation
import GameInstaller.Path
import GameInstaller.Process.Basic
import GameInstaller.Process.Image
import GameInstaller.Process.Spawn
import GameInstaller.Proofs.Actions
import GameInstaller.Proofs.Archive.Extract
import GameInstaller.Proofs.Archive.Tar
import GameInstaller.Proofs.Archive.Zip
import GameInstaller.Proofs.Cli.Accounting
import GameInstaller.Proofs.Cli.Entering
import GameInstaller.Proofs.Cli.Hashing
import GameInstaller.Proofs.Cli.Installing
import GameInstaller.Proofs.Cli.Rejecting
import GameInstaller.Proofs.Cli.Starting
import GameInstaller.Proofs.Command.Binding
import GameInstaller.Proofs.Command.Covering
import GameInstaller.Proofs.Command.Forms
import GameInstaller.Proofs.Command.Records
import GameInstaller.Proofs.Command.Schemas
import GameInstaller.Proofs.Config.Files
import GameInstaller.Proofs.Config.Refinement
import GameInstaller.Proofs.Config.Reloading
import GameInstaller.Proofs.Config.Saving
import GameInstaller.Proofs.Config.Settings
import GameInstaller.Proofs.Confinement
import GameInstaller.Proofs.Digest.Printed
import GameInstaller.Proofs.Digest.Written
import GameInstaller.Proofs.Disk.Beneath
import GameInstaller.Proofs.Disk.Calls
import GameInstaller.Proofs.Disk.Contents
import GameInstaller.Proofs.Disk.Copying
import GameInstaller.Proofs.Disk.Crossing
import GameInstaller.Proofs.Disk.Descending
import GameInstaller.Proofs.Disk.Directories
import GameInstaller.Proofs.Disk.Duplicating
import GameInstaller.Proofs.Disk.Entries
import GameInstaller.Proofs.Disk.Extending
import GameInstaller.Proofs.Disk.Finding
import GameInstaller.Proofs.Disk.Gaining
import GameInstaller.Proofs.Disk.Grafting
import GameInstaller.Proofs.Disk.Heading
import GameInstaller.Proofs.Disk.Leading
import GameInstaller.Proofs.Disk.Leaves
import GameInstaller.Proofs.Disk.Merging
import GameInstaller.Proofs.Disk.Moving
import GameInstaller.Proofs.Disk.Naming
import GameInstaller.Proofs.Disk.Outcome
import GameInstaller.Proofs.Disk.Places
import GameInstaller.Proofs.Disk.Refilling
import GameInstaller.Proofs.Disk.Relocating
import GameInstaller.Proofs.Disk.Removing
import GameInstaller.Proofs.Disk.Replacing
import GameInstaller.Proofs.Disk.Resolve
import GameInstaller.Proofs.Disk.Sharing
import GameInstaller.Proofs.Disk.Transfer
import GameInstaller.Proofs.Disk.Trees
import GameInstaller.Proofs.Disk.Visiting
import GameInstaller.Proofs.Disk.Works
import GameInstaller.Proofs.Install.Attempts
import GameInstaller.Proofs.Install.Bases
import GameInstaller.Proofs.Install.Checking
import GameInstaller.Proofs.Install.Composition
import GameInstaller.Proofs.Install.ConfigEntry
import GameInstaller.Proofs.Install.Executions
import GameInstaller.Proofs.Install.Expansion
import GameInstaller.Proofs.Install.Journaling
import GameInstaller.Proofs.Install.Journalless
import GameInstaller.Proofs.Install.Provisioning
import GameInstaller.Proofs.Install.Recording
import GameInstaller.Proofs.Install.Separation
import GameInstaller.Proofs.Install.Sessions
import GameInstaller.Proofs.Install.Skipping
import GameInstaller.Proofs.Install.Sustaining
import GameInstaller.Proofs.Install.Tracing
import GameInstaller.Proofs.Install.Validity
import GameInstaller.Proofs.Install.Verification
import GameInstaller.Proofs.Install.Views
import GameInstaller.Proofs.Journal.Appending
import GameInstaller.Proofs.Journal.Defects
import GameInstaller.Proofs.Journal.Lossless
import GameInstaller.Proofs.Json.Numbers
import GameInstaller.Proofs.Json.Objects
import GameInstaller.Proofs.Json.Validity
import GameInstaller.Proofs.Library.Storing
import GameInstaller.Proofs.Library.Table
import GameInstaller.Proofs.Path
import GameInstaller.Proofs.Path.Components
import GameInstaller.Proofs.Path.Splitting
import GameInstaller.Proofs.Process.Directories
import GameInstaller.Proofs.Process.Launching
import GameInstaller.Proofs.Recipe.Parsing
import GameInstaller.Proofs.Recipe.Starter
import GameInstaller.Proofs.Runner.Detection
import GameInstaller.Proofs.Runner.Ordering
import GameInstaller.Proofs.Text
import GameInstaller.Proofs.Text.Padded
import GameInstaller.Proofs.Time.Calendar
import GameInstaller.Proofs.Time.Stamp
import GameInstaller.Proofs.Toml.Entries
import GameInstaller.Proofs.Toml.Texts
import GameInstaller.Proofs.Yaml.Foreign
import GameInstaller.Proofs.Yaml.Keys
import GameInstaller.Proofs.Yaml.Lines
import GameInstaller.Proofs.Yaml.Reading
import GameInstaller.Proofs.Yaml.Words
import GameInstaller.Recipe.Basic
import GameInstaller.Recipe.Parse
import GameInstaller.Recipe.Validation
import GameInstaller.Runner.Basic
import GameInstaller.Runner.PackageManager
import GameInstaller.Runner.System
import GameInstaller.Settings
import GameInstaller.Shell.Arithmetic
import GameInstaller.Shell.Builtin
import GameInstaller.Shell.Command
import GameInstaller.Shell.Expand
import GameInstaller.Shell.Pattern
import GameInstaller.Shell.Run
import GameInstaller.Shell.State
import GameInstaller.Shell.Token
import GameInstaller.Shell.Tool
import GameInstaller.Slug
import GameInstaller.Text.Blank
import GameInstaller.Text.Escaped
import GameInstaller.Text.Hex
import GameInstaller.Text.Utf8
import GameInstaller.Time.Stamp
import GameInstaller.Toml.Reader
import GameInstaller.Toml.Scalar
import GameInstaller.Toml.Text
import GameInstaller.Yaml.Chars
import GameInstaller.Yaml.Node
import GameInstaller.Yaml.Plain
import GameInstaller.Yaml.Reader
import GameInstaller.Yaml.Scalar
import GameInstaller.Yaml.Token
import GameInstaller.Yaml.Value
import GameInstaller.Yaml.Writer
