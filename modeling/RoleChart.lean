import RoleChart.Table
import RoleChart.Journal
import RoleChart.Text.Blank
import RoleChart.Text.Quoted
import RoleChart.Text.Utf8
import RoleChart.Decimal.Notation
import RoleChart.Yaml.Document
import RoleChart.Yaml.Block
import RoleChart.Yaml.Described
import RoleChart.Path
import RoleChart.Disk
import RoleChart.Catalog
import RoleChart.Declaration
import RoleChart.Playbook
import RoleChart.Metadata
import RoleChart.Expansion.Component
import RoleChart.Expansion
import RoleChart.Listing
import RoleChart.NumberedGraph
import RoleChart.Graph.Store
import RoleChart.Drawing
import RoleChart.Dot
import RoleChart.Render
import RoleChart.Script
import RoleChart.Program
import RoleChart.Json.Reader
import RoleChart.Arguments
import RoleChart.Command
import RoleChart.Session
import RoleChart.Main
import RoleChart.Proofs.Text
import RoleChart.Proofs.Table
import RoleChart.Proofs.Attributes
import RoleChart.Proofs.Following
import RoleChart.Proofs.Reading
import RoleChart.Proofs.Cycle
import RoleChart.Proofs.Component
import RoleChart.Proofs.Walk
import RoleChart.Proofs.Weight
import RoleChart.Proofs.Expansion
import RoleChart.Proofs.Levels
import RoleChart.Proofs.PlainWalk
import RoleChart.Proofs.Modes
import RoleChart.Proofs.Distance
import RoleChart.Proofs.Order
import RoleChart.Proofs.Graph
import RoleChart.Proofs.Numbering
import RoleChart.Proofs.Store
import RoleChart.Proofs.Steps
import RoleChart.Proofs.Drawing
import RoleChart.Proofs.Label
import RoleChart.Proofs.Dot.Reader
import RoleChart.Proofs.Dot.Tokens
import RoleChart.Proofs.Dot
import RoleChart.Proofs.Label.Reader
import RoleChart.Proofs.Marks
import RoleChart.Proofs.Agreement
import RoleChart.Proofs.Failure
import RoleChart.Proofs.Styles
import RoleChart.Proofs.Mentions
import RoleChart.Proofs.Colors
import RoleChart.Proofs.Disk
import RoleChart.Proofs.Path
import RoleChart.Proofs.Format
import RoleChart.Proofs.Render
import RoleChart.Proofs.Command
import RoleChart.Proofs.Mapping
import RoleChart.Proofs.Declaration
import RoleChart.Proofs.Documents
import RoleChart.Proofs.ByteOrder
import RoleChart.Proofs.Listing
import RoleChart.Proofs.Arguments
import RoleChart.Proofs.Json
import RoleChart.Proofs.Session
