import LiveMarkup.Text.Quoted
import LiveMarkup.World.Basic

/-!
Debugging text: the parts of a world as records, lists and maps, numbers and strings in the
spelling that debugging text has of its own.
-/

set_option autoImplicit false
set_option relaxedAutoImplicit false

namespace LiveMarkup

namespace Debug

/-- A name with one part in parentheses. -/
def wrap (name part : String) : String := name ++ "(" ++ part ++ ")"

/-- Parts between brackets, separated by commas. -/
def sequence (start close : String) (parts : List String) : String :=
  start ++ ", ".intercalate parts ++ close

/-- Texts as a list. -/
def list (parts : List String) : String := sequence "[" "]" (parts.map quoted)

/-- Entries as a map. -/
def map (entries : List (String × String)) : String :=
  sequence "\x7b" "\x7d" (entries.map fun (key, part) ↦ quoted key ++ ": " ++ part)

/-- Fields as a record. -/
def record (name : String) (fields : List String) : String :=
  name ++ sequence " \x7b " " \x7d" fields

/-- Text that may be missing. -/
def option : Option String → String
  | some s => wrap "Some" (quoted s)
  | none => "None"

/-- A number. -/
def number (n : Number) : String := NumberFormat.debug.print n

/-- A state value. -/
def value : Value → String
  | .number n => wrap "Number" (number n)
  | .text s => wrap "Text" (quoted s)
  | .flag b => wrap "Bool" (if b then "true" else "false")

/-- An attribute value. -/
def attributeValue : AttrValue → String
  | .number n => wrap "Number" (number n)
  | .text s => wrap "Text" (quoted s)
  | .flag b => wrap "Bool" (if b then "true" else "false")
  | .callback _ => wrap "Callback" ".."

/-- An emitter: how many listeners each event has. -/
def emitter {α : Type} (e : Emitter α) : String :=
  record "EventEmitter"
    ["listeners: " ++ map (e.lists.toList.map fun (event, list) ↦ (event, toString list.length))]

/-- The options of a page. -/
def page (options : PageOptions) : String :=
  let options := record "PageOptions"
    ["title: " ++ option options.title?,
      "extra: " ++ map (options.extra.toList.map fun (key, v) ↦ (key, value v))]
  record "Page" ["options: " ++ options, ".."]

/-- An application. -/
def app (a : App) : String :=
  record "App" ["pages: " ++ list a.pages.keys, "current: " ++ option a.current?, ".."]

/-- A reference that keeps nothing alive. -/
def subscriber (alive : Bool) : String :=
  record "Subscriber" ["alive: " ++ if alive then "true" else "false"]

/-- An observable: its value, and how many entries its subscriber list has, dead ones
included. -/
def observable (o : Observable) : String :=
  record "Observable"
    ["value: " ++ value o.value, "subscribers: " ++ toString o.subscribers.length]

/-- A node. -/
def node (n : Node) : String :=
  record "Node"
    ["tag: " ++ quoted n.tag, "id: " ++ quoted n.id,
      "children: " ++ toString n.content.length, ".."]

end Debug

namespace World

variable {σ : Type}

/-- A live node as debugging text. -/
def debugNode (w : World σ) (id : NodeId) : String := (w.node? id).elim "" Debug.node

/-- An entry of content as debugging text. -/
def debugChild (w : World σ) : Child → String
  | .node id => Debug.wrap "Node" (w.debugNode id)
  | .state observable => Debug.wrap "State" (Debug.observable (w.observable observable))
  | .text s => Debug.wrap "Text" (quoted s)
  | .number n => Debug.wrap "Number" (Debug.number n)

end World

end LiveMarkup
