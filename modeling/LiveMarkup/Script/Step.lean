import LiveMarkup.Observable
import LiveMarkup.Page
import LiveMarkup.Registry
import LiveMarkup.Script.Spec

/-!
The steps of scripts. A step works on what handles are bound to; a step that makes something
may bind it to a handle.
-/

set_option autoImplicit false
set_option relaxedAutoImplicit false

namespace LiveMarkup.Script

/-- The name of something that a script works on. -/
abbrev HandleName := String

/-- Steps on registries. -/
inductive RegistryStep where
  | make (name : HandleName) (config : Config)
  | clone (registry name : HandleName)
  | nextId (registry : HandleName)
  | nodes (registry : HandleName)
  | counts (registry : HandleName)
  | find (registry : HandleName) (id : String) (name? : Option HandleName)
  | load (registry host : HandleName)
  | addStyle (registry node : HandleName) (style : StyleMap)
  | sheet (registry : HandleName)

/-- Steps on hosts. -/
inductive HostStep (α : Type) where
  | surface (name : HandleName) (markup : String)
  | probe (name : HandleName) (elements : List String) (fails : Bool)
  | markup (host : HandleName)
  | element (host : HandleName) (id : String)
  | append (host : HandleName) (markup : String)
  | replace (host : HandleName) (markup : String)
  | setInner (host : HandleName) (id markup : String)
  | attachClick (host : HandleName) (id : String) (plan : Plan α)
  | click (host : HandleName) (id : String)
  | listenerCount (host : HandleName) (id : String)

/-- Steps on observables and their targets. -/
inductive ObservableStep (α : Type) where
  | make (name : HandleName) (value : Value) (targets : List HandleName)
  | clone (observable name : HandleName)
  | get (observable : HandleName)
  | set (observable : HandleName) (value : Value)
  | operate (observable : HandleName) (operation : Operation)
  | derived (observable : HandleName)
  | subscribe (observable target : HandleName)
  | unsubscribe (observable target : HandleName)
  | subscribers (observable : HandleName)
  | on (observable : HandleName) (event : String) (name? : Option HandleName) (plan : Plan α)
  | off (observable : HandleName) (event : String) (listener : HandleName)
  | effect (observables names : List HandleName) (plan : Plan α)
  | recorder (name : HandleName) (plan : Plan α)
  | subscriber (name target : HandleName)
  | alive (target : HandleName)
  | sameTarget (a b : HandleName)
  | sameListener (a b : HandleName)

/-- Steps on nodes. -/
inductive NodeStep (α : Type) where
  | build (registry : HandleName) (spec : Spec α)
  | inspect (node : HandleName)
  | attributeValue (node : HandleName) (key : String)
  | write (node : HandleName)
  | writeInner (node : HandleName)
  | addContent (node : HandleName) (content : List (Entry α))
  | addClass (node : HandleName) (name : String)
  | takeId (node : HandleName) (id : String)
  | setState (node : HandleName) (entries : List (String × Value))
  | state (node : HandleName) (key : String)
  | render (node : HandleName) (name? : Option HandleName)
  | renderAsContainer (node : HandleName) (name? : Option HandleName)
  | rendered (node : HandleName) (name? : Option HandleName)
  | mount (node host : HandleName) (name? : Option HandleName)
  | refresh (node : HandleName)
  | afterMounting (node : HandleName)
  | whenReady (node host : HandleName)
  | attachAction (node host : HandleName)
  | same (a b : HandleName)
  | drop (name : HandleName)

/-- Steps on applications. -/
inductive AppStep (α : Type) where
  | make (name host : HandleName) (registryHandle? registryName? : Option HandleName)
  | addPage (app : HandleName) (name : String) (visits : List (Option (Spec α)))
    (options : PageOptions)
  | pageInfo (app : HandleName) (name : String)
  | pageRender (app : HandleName) (name : String)
  | render (app : HandleName) (name : String)
  | refresh (app : HandleName)
  | load (app : HandleName)
  | append (app : HandleName) (markup : String)
  | state (app : HandleName)
  | watch (app name : HandleName)

/-- Steps on stores. -/
inductive StoreStep where
  | make (name : HandleName)
  | get (store : HandleName) (key : String) (default : Value)
  | set (store : HandleName) (key : String) (value : Value)
  | has (store : HandleName) (key : String)
  | unset (store : HandleName) (key : String)
  | keys (store : HandleName)
  | equal (a b : HandleName)

/-- Steps on emitters. -/
inductive EmitterStep (α : Type) where
  | make (name : HandleName)
  | on (emitter : HandleName) (event : String) (name? : Option HandleName) (plan : Plan α)
  | off (emitter : HandleName) (event : String) (listener : HandleName)
  | emit (emitter : HandleName) (event : String) (value : Value)

/-- Steps that ask for debugging text. -/
inductive DebugStep (α : Type) where
  | handle (name : HandleName)
  | page (app : HandleName) (name : String)
  | children (node : HandleName)
  | attributes (node : HandleName)
  | shape (shape : Shape α)

/-- A step. -/
inductive Step where
  | registry (step : RegistryStep)
  | host (step : HostStep Step)
  | observable (step : ObservableStep Step)
  | node (step : NodeStep Step)
  | app (step : AppStep Step)
  | store (step : StoreStep)
  | emitter (step : EmitterStep Step)
  | debug (step : DebugStep Step)

end LiveMarkup.Script
