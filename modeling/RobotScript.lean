import RobotScript.Command.Basic
import RobotScript.Command.Parser
import RobotScript.Document.Basic
import RobotScript.Document.Reader
import RobotScript.Engine.Basic
import RobotScript.Engine.Crew
import RobotScript.Engine.Job
import RobotScript.Engine.Paced
import RobotScript.Expr.Arithmetic
import RobotScript.Expr.Basic
import RobotScript.Expr.Error
import RobotScript.Expr.Eval
import RobotScript.Expr.Lexer
import RobotScript.Expr.Parser
import RobotScript.Expr.Sensor
import RobotScript.Expr.Token
import RobotScript.Expr.Value
import RobotScript.Motion.Arc
import RobotScript.Motion.Encounter
import RobotScript.Motion.Heading
import RobotScript.Motion.Kinematics
import RobotScript.Motion.StraightPath
import RobotScript.Motion.Vector
import RobotScript.Motion.Wall
import RobotScript.Motion.Wheel
import RobotScript.Number.Binary
import RobotScript.Number.Decimal
import RobotScript.Number.Scalar
import RobotScript.Number.Trigonometry
import RobotScript.Proofs.Command.Parsing
import RobotScript.Proofs.Command.Usage
import RobotScript.Proofs.Engine.Alone
import RobotScript.Proofs.Engine.Cancelling
import RobotScript.Proofs.Engine.Effects
import RobotScript.Proofs.Engine.Pacing
import RobotScript.Proofs.Engine.Rounds
import RobotScript.Proofs.Engine.Sweeps
import RobotScript.Proofs.Engine.Timed
import RobotScript.Proofs.Engine.Workers
import RobotScript.Proofs.Expr.Chains
import RobotScript.Proofs.Expr.Completion
import RobotScript.Proofs.Expr.Extension
import RobotScript.Proofs.Expr.Grammar
import RobotScript.Proofs.Expr.Height
import RobotScript.Proofs.Expr.Integers
import RobotScript.Proofs.Expr.Lexemes
import RobotScript.Proofs.Expr.Phrases
import RobotScript.Proofs.Expr.Reading
import RobotScript.Proofs.Expr.Readings
import RobotScript.Proofs.Expr.Safety
import RobotScript.Proofs.Motion.Arcs
import RobotScript.Proofs.Motion.Headings
import RobotScript.Proofs.Motion.Walls
import RobotScript.Proofs.Number.Accuracy
import RobotScript.Proofs.Number.Circle
import RobotScript.Proofs.Number.Doubles
import RobotScript.Proofs.Number.Numerals
import RobotScript.Proofs.Number.Ordering
import RobotScript.Proofs.Number.Reals
import RobotScript.Proofs.Number.Rounding
import RobotScript.Proofs.Number.Values
import RobotScript.Proofs.Number.Whole
import RobotScript.Proofs.Robot.Margin
import RobotScript.Proofs.Script.Comments
import RobotScript.Proofs.Script.Conservation
import RobotScript.Proofs.Script.Cursor
import RobotScript.Proofs.Script.Dedents
import RobotScript.Proofs.Script.Histories
import RobotScript.Proofs.Script.Indentation
import RobotScript.Proofs.Script.Keywords
import RobotScript.Proofs.Script.Layout
import RobotScript.Proofs.Script.Recasting
import RobotScript.Proofs.Script.Slices
import RobotScript.Proofs.Script.Tabs
import RobotScript.Proofs.Script.Visibility
import RobotScript.Proofs.Script.Writing
import RobotScript.Proofs.Session.Acknowledgement
import RobotScript.Proofs.Session.Agreement
import RobotScript.Proofs.Session.Assignment
import RobotScript.Proofs.Session.Failing
import RobotScript.Proofs.Session.Following
import RobotScript.Proofs.Session.Frames
import RobotScript.Proofs.Session.Headings
import RobotScript.Proofs.Session.Interleaving
import RobotScript.Proofs.Session.LoopFree
import RobotScript.Proofs.Session.Nesting
import RobotScript.Proofs.Session.Scheduling
import RobotScript.Proofs.Session.Standstill
import RobotScript.Proofs.Session.Stopping
import RobotScript.Proofs.Session.Structured
import RobotScript.Proofs.Session.Transcript
import RobotScript.Proofs.Session.Unwinding
import RobotScript.Proofs.Session.Walk
import RobotScript.Proofs.Session.Wheels
import RobotScript.Proofs.Settings.Ticks
import RobotScript.Proofs.Swarm.Nearest
import RobotScript.Proofs.Swarm.Reaction
import RobotScript.Proofs.Swarm.Registry
import RobotScript.Robot.Appearance
import RobotScript.Robot.Basic
import RobotScript.Robot.Cone
import RobotScript.Script.Line
import RobotScript.Script.Program
import RobotScript.Script.Source
import RobotScript.Script.Stmt
import RobotScript.Session.Basic
import RobotScript.Session.Console
import RobotScript.Session.Random
import RobotScript.Session.Threads
import RobotScript.Session.Walker
import RobotScript.Settings.Basic
import RobotScript.Settings.Document
import RobotScript.Swarm
import RobotScript.Text.Blank
import RobotScript.Text.Printable
import RobotScript.Text.Quoted
