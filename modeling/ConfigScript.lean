import ConfigScript.Main
import ConfigScript.Proofs.Decode.Placement
import ConfigScript.Proofs.Decode.Reordering
import ConfigScript.Proofs.Decode.RoundTrip
import ConfigScript.Proofs.Decode.Succession
import ConfigScript.Proofs.Decode.Untagging
import ConfigScript.Proofs.Document.Failure
import ConfigScript.Proofs.Document.Preservation
import ConfigScript.Proofs.Document.Tagging
import ConfigScript.Proofs.Environment.Atomicity
import ConfigScript.Proofs.Environment.Registration
import ConfigScript.Proofs.Event.Arrangement
import ConfigScript.Proofs.Event.Reading
import ConfigScript.Proofs.Path.Location
import ConfigScript.Proofs.Path.Unambiguity
import ConfigScript.Proofs.Walker.Depth
import ConfigScript.Proofs.Walker.Growth
import ConfigScript.Proofs.Walker.Recursion
import ConfigScript.Proofs.Walker.Strictness
import ConfigScript.Proofs.Decode.Skipping
import ConfigScript.Proofs.Decode.Insertion
import ConfigScript.Proofs.Decode.Key
import ConfigScript.Proofs.Decode.Integer
import ConfigScript.Proofs.Value.Assignment
import ConfigScript.Proofs.Value.Position
import ConfigScript.Proofs.Walker.Imprecision
import ConfigScript.Proofs.Walker.Laziness
