import StoryScript.Main
import StoryScript.Proofs.Cache.Bookkeeping
import StoryScript.Proofs.Cache.Window
import StoryScript.Proofs.Channel.Correlation
import StoryScript.Proofs.Channel.Order
import StoryScript.Proofs.Config
import StoryScript.Proofs.Divert
import StoryScript.Proofs.Engine.Diagnostics
import StoryScript.Proofs.Engine.Tracking
import StoryScript.Proofs.MainScript
import StoryScript.Proofs.Position.Columns
import StoryScript.Proofs.Program.Growth
import StoryScript.Proofs.Program.Members
import StoryScript.Proofs.Program.Repeats
import StoryScript.Proofs.RangeSet.Cursor
import StoryScript.Proofs.Rename.Assets
import StoryScript.Proofs.Rename.Exact
import StoryScript.Proofs.Rename.Torn
import StoryScript.Proofs.Script.WellFormed
import StoryScript.Proofs.Search.Symmetry
import StoryScript.Proofs.Session.Delivery
import StoryScript.Proofs.Store.History
import StoryScript.Proofs.Timeline.Cancel
import StoryScript.Proofs.Wire.Kind
import StoryScript.Wire.Line
import StoryScript.Wire.Reference
