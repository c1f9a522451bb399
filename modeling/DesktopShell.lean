import DesktopShell.Main
import DesktopShell.Proofs.Cli.Input
import DesktopShell.Proofs.Cli.Kept
import DesktopShell.Proofs.Cli.Options
import DesktopShell.Proofs.Cli.Perform
import DesktopShell.Proofs.Cli.Told
import DesktopShell.Proofs.CommandLine.Partition
import DesktopShell.Proofs.CommandLine.Scan
import DesktopShell.Proofs.CommandLine.Spelling
import DesktopShell.Proofs.Drive.Adjusted
import DesktopShell.Proofs.Drive.Alike
import DesktopShell.Proofs.Drive.Change
import DesktopShell.Proofs.Drive.Commit
import DesktopShell.Proofs.Drive.Commute
import DesktopShell.Proofs.Drive.Feasible
import DesktopShell.Proofs.Drive.Footprint
import DesktopShell.Proofs.Drive.Icons
import DesktopShell.Proofs.Drive.Labelled
import DesktopShell.Proofs.Drive.Newcomers
import DesktopShell.Proofs.Drive.Protected
import DesktopShell.Proofs.Drive.ReadBack
import DesktopShell.Proofs.Drive.Stem
import DesktopShell.Proofs.Drive.Stock
import DesktopShell.Proofs.Drive.Timeless
import DesktopShell.Proofs.Drive.Trail
import DesktopShell.Proofs.Drive.Turnover
import DesktopShell.Proofs.Drive.WayBack
import DesktopShell.Proofs.History.Circle
import DesktopShell.Proofs.History.Recall
import DesktopShell.Proofs.Json.Lex
import DesktopShell.Proofs.Json.Parse
import DesktopShell.Proofs.Json.Text
import DesktopShell.Proofs.Path.Canonical
import DesktopShell.Proofs.Path.Compose
import DesktopShell.Proofs.Path.Follow
import DesktopShell.Proofs.Path.Joined
import DesktopShell.Proofs.Path.Longest
import DesktopShell.Proofs.Path.Segments
import DesktopShell.Proofs.Ring.BothEnds
import DesktopShell.Proofs.Ring.Contents
import DesktopShell.Proofs.Ring.Newest
import DesktopShell.Proofs.Shared.Create
import DesktopShell.Proofs.Shared.Linear
import DesktopShell.Proofs.Shared.Pursuit
import DesktopShell.Proofs.Shared.Race
import DesktopShell.Proofs.Shared.Turn
import DesktopShell.Proofs.Shell.Act
import DesktopShell.Proofs.Shell.Alike
import DesktopShell.Proofs.Shell.Call
import DesktopShell.Proofs.Shell.Canonical
import DesktopShell.Proofs.Shell.Create
import DesktopShell.Proofs.Shell.Echo
import DesktopShell.Proofs.Shell.Effect
import DesktopShell.Proofs.Shell.Ending
import DesktopShell.Proofs.Shell.Failure
import DesktopShell.Proofs.Shell.Footprint
import DesktopShell.Proofs.Shell.Launch
import DesktopShell.Proofs.Shell.Listing
import DesktopShell.Proofs.Shell.Lookup
import DesktopShell.Proofs.Shell.Mainframe
import DesktopShell.Proofs.Shell.Pacing
import DesktopShell.Proofs.Shell.Remove
import DesktopShell.Proofs.Shell.Room
import DesktopShell.Proofs.Shell.Top
import DesktopShell.Proofs.Shell.Transcript
import DesktopShell.Proofs.Shell.Typed
import DesktopShell.Proofs.Shell.Uniform
import DesktopShell.Proofs.Snapshot.Entry
import DesktopShell.Proofs.Snapshot.Reread
import DesktopShell.Proofs.Snapshot.RoundTrip
import DesktopShell.Proofs.Text.Base64
import DesktopShell.Proofs.Text.Bytes
import DesktopShell.Proofs.Text.Case
import DesktopShell.Proofs.Text.Digits
import DesktopShell.Proofs.Text.Lowercase
import DesktopShell.Proofs.Time.Rfc3339
import DesktopShell.Proofs.Tree.Exchange
import DesktopShell.Proofs.Tree.Node
import DesktopShell.Proofs.Tree.Preorder
import DesktopShell.Proofs.Tree.Recast
import DesktopShell.Proofs.Tree.Siblings
import DesktopShell.Proofs.Tree.Sweep
import DesktopShell.Proofs.Tree.Walk
import DesktopShell.Proofs.Tree.WellFormed
import DesktopShell.Proofs.Tree.Without
import DesktopShell.Proofs.World.Crash
import DesktopShell.Proofs.World.Launch
import DesktopShell.Proofs.World.Protected
import DesktopShell.Proofs.World.Run
import DesktopShell.Proofs.World.Siblings
import DesktopShell.Proofs.World.Snapshot
