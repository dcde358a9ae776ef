import LiveMarkup.World.Basic

/-!
What a script answers: the reply of each step, and what was logged while it ran.
-/

set_option autoImplicit false
set_option relaxedAutoImplicit false

namespace LiveMarkup.Script

/-- A node as replies show it. -/
structure NodeRef where
  tag : String
  id : String

/-- An entry of content as replies show it. -/
inductive ChildView where
  | text (s : String)
  | number (n : Number)
  | observable (value : Value)
  | node (ref : NodeRef)

/-- Everything that can be asked of a node. -/
structure NodeView where
  ref : NodeRef
  attributes : List (String × AttrValue)
  classes : List String
  style : String
  flags : Nat
  children : List ChildView
  isLayout : Bool
  isMounted : Bool
  parent? : Option NodeRef
  rendered? : Option NodeRef
  /-- Whether the node was displayed as itself, if it was mounted. -/
  isItself? : Option Bool

/-- What a storage step answers first. -/
inductive StoreAnswer where
  | value? (v : Option Value)
  | present (b : Bool)

/-- The reply of a step. -/
inductive Reply where
  /-- Nothing to say. -/
  | done
  /-- It worked. -/
  | ok
  | failed (error : LookupError)
  | flag (b : Bool)
  | count (n : Nat)
  | counts (first second : Nat)
  | text (s : String)
  | text? (s? : Option String)
  | texts (list : List String)
  | config (config : Config)
  | ref? (ref? : Option NodeRef)
  | refs (refs : List NodeRef)
  | sheet (rules : Nat) (text : String)
  | element (isPresent : Bool) (outer? inner? : Option String)
  /-- The value of an observable, shown. -/
  | observed (value : Value)
  | observedCount (value : Value) (subscribers : Nat)
  | read (value : Value)
  | applied (applied : Bool) (value : Value)
  | derived (length : Nat) (int float : Number)
  | removed (removed : Bool) (left : Nat)
  | node (view : NodeView)
  | attributeValue (value? : Option AttrValue)
  | attributes (entries : List (String × AttrValue))
  | value? (value? : Option Value)
  | rendered (isSelf : Bool) (ref : NodeRef) (markup : String)
  | mounted (isSelf : Bool) (ref : NodeRef)
  | pageInfo (options? : Option PageOptions)
  | pageRender (content? : Option (NodeRef × String))
  | appState (current? signal? : Option String) (mounted? : Option NodeRef) (pages : List String)
  | store (answer : StoreAnswer) (keys : List String)

/-- An entry of the log. -/
inductive LogEntry where
  /-- Something that the library reported. -/
  | note (note : Note)
  /-- A callback was called, with a value or without. -/
  | called (name : String) (value? : Option Value)
  /-- A step of a callback was answered. -/
  | answered (name : String) (reply : Reply)

/-- What a script answers for one of its steps: the reply, the log, and the markup of the
surfaces that changed, by handle. -/
structure Item where
  reply : Reply
  log : List LogEntry
  markup : List (String × String)

end LiveMarkup.Script
