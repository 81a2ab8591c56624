import RedirFS.Chain
import RedirFS.Registry.State
import RedirFS.Registry.Path
import RedirFS.Registry.Api
import RedirFS.Registry.Ids
import RedirFS.Registry.Spec
import RedirFS.Registry.Invariant
import RedirFS.Registry.Calls
import RedirFS.Registry.Arrays
import RedirFS.Registry.Preserve
import RedirFS.Registry.Refine
import RedirFS.Registry.Safety
import RedirFS.Registry.Moves
import RedirFS.Registry.Interleave
import RedirFS.Registry.RoundTrip
import RedirFS.Registry.IdRuns
import RedirFS.Registry.ChainObjects
import RedirFS.Registry.AbsRuns
import RedirFS.Registry.Teardown
import RedirFS.Filename
import RedirFS.Rename.Propagate
import RedirFS.Rename.Ledger
import RedirFS.Rename.Delta
import RedirFS.Rename.Failure
import RedirFS.Dump
import RedirFS.Dump.Bounds
import RedirFS.Dump.Read
