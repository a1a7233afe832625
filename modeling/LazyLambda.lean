import LazyLambda.Command.Run
import LazyLambda.Files.Disk
import LazyLambda.Files.Store
import LazyLambda.Library.Directory
import LazyLambda.Library.Prelude
import LazyLambda.Log.Entry
import LazyLambda.Log.Threshold
import LazyLambda.Main
import LazyLambda.Module.Json
import LazyLambda.Shell.Basic
import LazyLambda.Shell.Hints
import LazyLambda.Shell.History
import LazyLambda.Proofs.Term.Reading
import LazyLambda.Proofs.Session.FreeNames
import LazyLambda.Proofs.Term.RoundTrip
import LazyLambda.Proofs.Evaluator.Termination
import LazyLambda.Proofs.Evaluator.Threshold
import LazyLambda.Proofs.Session.WellScoped
import LazyLambda.Proofs.Library.Arithmetic
import LazyLambda.Proofs.Module.Concatenation
import LazyLambda.Proofs.Shell.Inputs
import LazyLambda.Proofs.Shell.Batch
import LazyLambda.Proofs.Session.Unshadowed
import LazyLambda.Proofs.Session.Loading
import LazyLambda.Proofs.Library.Loading
import LazyLambda.Proofs.Shell.Hints
import LazyLambda.Proofs.Module.Words
import LazyLambda.Proofs.Shell.History
import LazyLambda.Proofs.Token.Parts
import LazyLambda.Proofs.Token.EarlyEnd
import LazyLambda.Proofs.Token.Positions
import LazyLambda.Proofs.Module.Accepted
import LazyLambda.Proofs.Library.Recursion
import LazyLambda.Proofs.Library.Formulas
import LazyLambda.Proofs.Term.BindingLaws
import LazyLambda.Proofs.Token.Cursor
import LazyLambda.Proofs.Module.Recording
import LazyLambda.Proofs.Module.Faults
import LazyLambda.Proofs.Module.Rendering
import LazyLambda.Proofs.Shell.Completion
import LazyLambda.Proofs.Files.Path
import LazyLambda.Proofs.Library.Directory
import LazyLambda.Proofs.Module.Json
