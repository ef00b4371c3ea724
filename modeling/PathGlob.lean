import PathGlob.Text
import PathGlob.Text.Blank
import PathGlob.Text.Lines
import PathGlob.Text.Printable
import PathGlob.Text.Quoted
import PathGlob.Decimal
import PathGlob.Double
import PathGlob.Pattern
import PathGlob.Value
import PathGlob.Fault
import PathGlob.Argument
import PathGlob.Location
import PathGlob.Paths
import PathGlob.Regex
import PathGlob.Regex.Reader
import PathGlob.Regex.Escape
import PathGlob.Regex.Fits
import PathGlob.Pattern.Compile
import PathGlob.Pattern.Expression
import PathGlob.Volume
import PathGlob.Volume.Memory
import PathGlob.Volume.Host
import PathGlob.Walk
import PathGlob.Glob
import PathGlob.Path
import PathGlob.Path.Session
import PathGlob.Release
import PathGlob.Proofs.Resolved
import PathGlob.Proofs.Behind
import PathGlob.Proofs.Fallible
import PathGlob.Proofs.Tree
import PathGlob.Proofs.Built
import PathGlob.Proofs.Listing
import PathGlob.Proofs.Reading
import PathGlob.Proofs.Language
import PathGlob.Proofs.Compiled
import PathGlob.Proofs.Steps
import PathGlob.Proofs.Harvest
import PathGlob.Proofs.Ways
import PathGlob.Proofs.Cut
import PathGlob.Proofs.Matches
import PathGlob.Proofs.Blocks
import PathGlob.Proofs.Tally
import PathGlob.Proofs.Agreement
import PathGlob.Proofs.Confined
import PathGlob.Proofs.Repeats
import PathGlob.Proofs.Route
import PathGlob.Proofs.Recursion
import PathGlob.Proofs.Dotted
import PathGlob.Proofs.Astray
import PathGlob.Proofs.Upwards
import PathGlob.Proofs.Conflicts
import PathGlob.Proofs.Canonical
import PathGlob.Proofs.Layouts
import PathGlob.Proofs.Existing
import PathGlob.Proofs.Unread
import PathGlob.Proofs.Absorbed
import PathGlob.Proofs.Arguments
import PathGlob.Proofs.Trimmed
import PathGlob.Proofs.Remembered
import PathGlob.Proofs.Methods
import PathGlob.Proofs.Interchange
import PathGlob.Proofs.Stages
import PathGlob.Proofs.Compared
import PathGlob.Proofs.Shortest
import PathGlob.Proofs.Joined
import PathGlob.Proofs.Nesting
import PathGlob.Proofs.WellFormed
import PathGlob.Proofs.BaseOnly
import PathGlob.Proofs.Requirements
import PathGlob.Proofs.Regrouped
import PathGlob.Proofs.Straddling
import PathGlob.Proofs.Unfit
import PathGlob.Proofs.Reordered
import PathGlob.Proofs.Stars
