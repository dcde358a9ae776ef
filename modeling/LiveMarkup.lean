import LiveMarkup.Font
import LiveMarkup.Proofs.Calls.Enrolment
import LiveMarkup.Proofs.Calls.Exhibition
import LiveMarkup.Proofs.Calls.Housekeeping
import LiveMarkup.Proofs.Calls.Listening
import LiveMarkup.Proofs.Calls.Program
import LiveMarkup.Proofs.Calls.Protocol
import LiveMarkup.Proofs.Calls.Recording
import LiveMarkup.Proofs.Calls.Relaying
import LiveMarkup.Proofs.Content.Attributes
import LiveMarkup.Proofs.Content.Outline
import LiveMarkup.Proofs.Content.Safety
import LiveMarkup.Proofs.Content.Showing
import LiveMarkup.Proofs.Content.Unfolding
import LiveMarkup.Proofs.Content.Walking
import LiveMarkup.Proofs.Identity.Aliasing
import LiveMarkup.Proofs.Identity.Census
import LiveMarkup.Proofs.Identity.Drawing
import LiveMarkup.Proofs.Identity.Ledger
import LiveMarkup.Proofs.Identity.Origins
import LiveMarkup.Proofs.Identity.Runs
import LiveMarkup.Proofs.Markup.Appending
import LiveMarkup.Proofs.Markup.Bounds
import LiveMarkup.Proofs.Markup.Forest
import LiveMarkup.Proofs.Markup.Independence
import LiveMarkup.Proofs.Markup.Mosaic
import LiveMarkup.Proofs.Markup.Rewriting
import LiveMarkup.Proofs.Number.Grammar
import LiveMarkup.Proofs.Number.Leading
import LiveMarkup.Proofs.Number.RoundTrip
import LiveMarkup.Proofs.Number.Text
import LiveMarkup.Proofs.Pages.Dispatch
import LiveMarkup.Proofs.Pages.Navigation
import LiveMarkup.Proofs.Pages.Turnover
import LiveMarkup.Proofs.Store.History
import LiveMarkup.Proofs.Style.Cascade
import LiveMarkup.Proofs.Style.Classes
import LiveMarkup.Proofs.Style.Resolution
import LiveMarkup.Proofs.Style.Sheet
import LiveMarkup.Proofs.World.Carrying
import LiveMarkup.Proofs.World.Composing
import LiveMarkup.Proofs.World.Display
import LiveMarkup.Proofs.World.Forms
import LiveMarkup.Proofs.World.Redrawing
import LiveMarkup.Proofs.World.Refreshing
import LiveMarkup.Proofs.World.Rendering
import LiveMarkup.Proofs.World.Repainting
import LiveMarkup.Proofs.World.Styling
import LiveMarkup.Script.Run
