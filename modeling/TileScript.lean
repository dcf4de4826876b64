import TileScript.Main
import TileScript.Proofs.Board.Csv
import TileScript.Proofs.Colour
import TileScript.Proofs.Evaluation.Quotients
import TileScript.Proofs.Program.Calls
import TileScript.Proofs.Program.Shape
import TileScript.Proofs.Run.Consistent
import TileScript.Proofs.Run.Faults
import TileScript.Proofs.Run.InTurn
import TileScript.Proofs.Run.Report
import TileScript.Proofs.Run.Reported
import TileScript.Proofs.Run.SingleLoop
import TileScript.Proofs.Run.Ticks
import TileScript.Proofs.Run.Transparent
import TileScript.Proofs.Run.Unpressed
import TileScript.Proofs.Schedule
import TileScript.Proofs.Token.Joined
import TileScript.Proofs.World.Failures
import TileScript.Proofs.World.Relations
import TileScript.Proofs.World.Resizing
import TileScript.Proofs.World.Stacks
