import QuestScript.Main
import QuestScript.Proofs.Machine
import QuestScript.Proofs.Flow
import QuestScript.Proofs.Expression
import QuestScript.Proofs.Termination
import QuestScript.Proofs.Cursor
import QuestScript.Proofs.StackSafety
import QuestScript.Proofs.Defects
import QuestScript.Proofs.Buttons
import QuestScript.Proofs.Severity
import QuestScript.Proofs.Console
import QuestScript.Proofs.PositionCell
import QuestScript.Proofs.Confinement
import QuestScript.Proofs.Image
import QuestScript.Proofs.Words
import QuestScript.Proofs.PutBack
import QuestScript.Proofs.LocalTables
import QuestScript.Proofs.Spelling.Compile
import QuestScript.Proofs.Arguments.Read
import QuestScript.Proofs.Incomplete
import QuestScript.Proofs.Strays.Statement
import QuestScript.Proofs.Strays.Expression
import QuestScript.Proofs.OptionalReading
import QuestScript.Proofs.Rendering
import QuestScript.Proofs.Quoting
import QuestScript.Proofs.Formats
import QuestScript.Proofs.Artifacts
import QuestScript.Proofs.LocalsFile
import QuestScript.Proofs.VisitOrder
import QuestScript.Proofs.LeadingNumbers
