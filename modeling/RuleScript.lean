import RuleScript.Text.Blank
import RuleScript.Source.Position
import RuleScript.Source.Token
import RuleScript.Source.Scan
import RuleScript.Syntax.Basic
import RuleScript.Syntax.Parse
import RuleScript.Script.Quoted
import RuleScript.Script.Names
import RuleScript.Script.Basic
import RuleScript.Script.Emit
import RuleScript.Report.Json
import RuleScript.Report.Tree
import RuleScript.Text.Utf8
import RuleScript.Regex.Tree
import RuleScript.Regex.Parse
import RuleScript.Regex.Nesting
import RuleScript.Regex.Ranges
import RuleScript.Regex.Expr
import RuleScript.Regex.Settle
import RuleScript.Regex.Sequences
import RuleScript.Regex.Trie
import RuleScript.Regex.Footprint
import RuleScript.Regex.Search
import RuleScript.Regex.Pattern
import RuleScript.Command.Log
import RuleScript.Command.Args
import RuleScript.Command.Path
import RuleScript.Command.Workspace
import RuleScript.Command.Run
import RuleScript.Main
import RuleScript.Proofs.Segmentation
import RuleScript.Proofs.Grammar
import RuleScript.Proofs.Writing
import RuleScript.Proofs.Names
import RuleScript.Proofs.Scoping
import RuleScript.Proofs.Meaning
import RuleScript.Proofs.Execution
import RuleScript.Proofs.Parsed
import RuleScript.Proofs.Agreement
import RuleScript.Proofs.Preservation
import RuleScript.Proofs.Quoting
import RuleScript.Proofs.ScanFaults
import RuleScript.Proofs.Visibility
import RuleScript.Proofs.Prefixes
import RuleScript.Proofs.FirstFault
import RuleScript.Proofs.Faults
import RuleScript.Proofs.Declared
import RuleScript.Proofs.Depth
import RuleScript.Proofs.Numerals
import RuleScript.Proofs.Recursion
