import LiveMarkup.Proofs.Calls.Operating
import LiveMarkup.Proofs.World.Retaining
import Mathlib.Logic.Relation

/-!
Every world that a client reaches is sound. A client does single things with a world, by itself or
through the library (`World.Acts`); it nests and holds only what is alive, and what it answers to
calls leaves worlds tidy (`Client.KeepsTidy`). Then everything leaves worlds tidy, mutations, load
passes, clicks and pages with all calls that they make included (`World.Acts.tidy`), and so does one
thing after the other from the empty world on (`World.sound_of_reaches`).
-/

set_option autoImplicit false
set_option relaxedAutoImplicit false

namespace LiveMarkup

variable {σ : Type} [Journal σ]

namespace World

variable {w w' : World σ}

/-- Whatever a mutation or a click does besides making calls leaves worlds tidy. -/
theorem Tidy.passage : Passage fun w w' : World σ ↦ w.Tidy → w'.Tidy where
  refl _ h := h
  trans first second h := second (first h)
  changeHosts _ _ h := h.of_eq rfl rfl rfl rfl
  note _ _ h := h.of_eq rfl rfl rfl rfl
  holdNode hlive h := h.hold (exists_node? hlive)
  holdRecorder _ _ h := h.hold trivial
  release _ root h := h.release root
  store _ _ _ h := h.of_eq rfl rfl rfl rfl
  prune _ _ h := h.of_eq rfl rfl rfl rfl
  refresh _ _ hrun h := h.refresh hrun

end World

/-- A client that leaves worlds tidy. The content that it builds for a page comes with a reference,
and it removes no registry. -/
structure Client.KeepsTidy (client : Client σ) : Prop where
  call : ∀ call w w', client.call call w = .ok w' → w.Tidy → w'.Tidy
  page : ∀ renderer registry w content? w', w.registries.contains registry = true →
    client.page renderer registry w = .ok (content?, w') → w.Tidy →
      w'.Tidy ∧ w'.registries.contains registry = true ∧
        ∀ content, content? = some content → .node content ∈ w'.held

/-- A client that answers calls with programs leaves worlds tidy, however deep calls nest, if what
the programs do between their mutations does. -/
theorem Client.keepsTidy_answering {react : Call → World σ → Program σ}
    (hreact : ∀ call w, (react call w).Passes fun w w' ↦ w.Tidy → w'.Tidy) (depth : Nat) :
    (Client.answering react depth).KeepsTidy where
  call := World.Tidy.passage.answering hreact depth
  page := fun renderer registry w content? w' hregistry hrun h ↦ by
    have hrun' : Except.ok (none, w) = (Except.ok (content?, w') : Except Fault _) := by
      cases depth <;> exact hrun
    obtain ⟨rfl, rfl⟩ := Prod.mk.inj (Except.ok.inj hrun')
    exact ⟨h, hregistry, fun _ hcontent ↦ by cases hcontent⟩

namespace World

variable {client : Client σ} {w w' : World σ}

/-! ### What the library does -/

theorem Tidy.load (h : w.Tidy) (hclient : client.KeepsTidy) {registry : RegistryId} {host : HostId}
    (hrun : w.load client registry host = .ok w') : w'.Tidy := by
  obtain ⟨ready, hready, hrun⟩ := bind_eq_ok.mp hrun
  obtain rfl : ready.releaseAll (w.liveNodes registry) = w' := Except.ok.inj hrun
  have hheld : (w.holdAll (w.liveNodes registry)).Tidy :=
    h.holdAll fun n hn ↦ exists_node? (List.mem_filter.mp hn).2
  have hpassed : (w.holdAll (w.liveNodes registry)).Tidy → ready.Tidy :=
    Tidy.passage.foldlM (fun _ _ _ hwhen ↦ Tidy.passage.whenReady hclient.call hwhen) hready
  exact (hpassed hheld).releaseAll _

/-- The content of a page is held. -/
theorem Tidy.pageContent (h : w.Tidy) (hclient : client.KeepsTidy) {app : App} {name : String}
    {page : Page} {content : NodeId} (hregistry : w.registries.contains app.registry = true)
    (hrun : w.pageContent client app name page = .ok (content, w')) :
    w'.Tidy ∧ .node content ∈ w'.held := by
  obtain ⟨⟨content?, built⟩, hbuild, hrun⟩ := bind_eq_ok.mp hrun
  obtain ⟨hbuilt, hregistry', hheld⟩ := hclient.page _ _ _ _ _ hregistry hbuild h
  cases content? with
  | some content =>
    obtain ⟨rfl, rfl⟩ := Prod.mk.inj (Except.ok.inj hrun)
    exact ⟨hbuilt, hheld _ rfl⟩
  | none =>
    let tag := (built.registry app.registry).config.fallbackTag
    have hplaceholder :
        ∀ n, .node n ∈ [Child.text (Page.placeholder name)] →
          ∃ node, built.node? n = some node := by
      intro n hn
      cases List.mem_singleton.mp hn
    have hcreated := (hbuilt.create hregistry' .plain tag ∅ hplaceholder).1
    have hid : (∅ : Attributes).contains "id" = false := rfl
    obtain ⟨created, hcreate, hrenders, -⟩ :=
      built.createPlain_renders app.registry tag hid [.text (Page.placeholder name)]
    have hrun' : built.createPlain app.registry tag ∅ [.text (Page.placeholder name)] =
        (content, w') := Except.ok.inj hrun
    rw [hrun'] at hcreate
    obtain ⟨rfl, rfl⟩ := Prod.mk.inj hcreate
    refine ⟨?_, (hrenders (fun _ ↦ False) 0).held.mem_iff.mpr List.mem_cons_self⟩
    rwa [show built.create app.registry .plain tag ∅ _ = _ from hrun'] at hcreated

/-- Content that is held may be shown. What was shown before is dropped unless it is referred to. -/
theorem Tidy.showContent (h : w.Tidy) {id : AppId} {host : HostId} {content : NodeId}
    (hcontent : .node content ∈ w.held) (hrun : w.showContent id host content = .ok w') :
    w'.Tidy := by
  obtain ⟨⟨form, mounted⟩, hmount, hrun⟩ := bind_eq_ok.mp hrun
  obtain ⟨hmounted, hheld⟩ := h.mount hmount
  obtain rfl := Except.ok.inj hrun
  have hshown : (mounted.modifyApp id fun app ↦ { app with mounted? := some content }).Intact := by
    refine hmounted.toIntact.modifyApp (fun _ ↦ rfl) fun _ n hn ↦ .inr ?_
    obtain rfl : content = n := Option.some.inj hn
    exact hmounted.offers (hheld _ hcontent)
  exact hshown.releaseAll _

theorem Tidy.setCurrent (h : w.Tidy) (id : AppId) (name : String) :
    (w.setCurrent id name).Tidy := by
  cases happ : w.apps.get? id with
  | none =>
    rw [World.setCurrent, happ]
    exact h
  | some app =>
    obtain ⟨client, hcurrent⟩ := setCurrent_eq happ name
    have hmodified : (w.modifyApp id fun app ↦
        { app with
          current? := some name, signal := { app.signal with value? := some name } }).Tidy :=
      h.modifyApp (fun _ ↦ rfl) fun _ ↦ rfl
    rw [hcurrent]
    exact hmodified.of_eq rfl rfl rfl rfl

theorem Tidy.renderPage (h : w.Tidy) (hclient : client.KeepsTidy) {id : AppId} {name : String}
    {found : Bool} (hrun : w.renderPage client id name = .ok (found, w')) : w'.Tidy := by
  unfold World.renderPage at hrun
  split at hrun
  · obtain ⟨-, rfl⟩ := Prod.mk.inj (Except.ok.inj hrun)
    exact h
  · rename_i app happ
    split at hrun
    · obtain ⟨-, rfl⟩ := Prod.mk.inj (Except.ok.inj hrun)
      exact h
    · obtain ⟨⟨content, built⟩, hcontent, hrun⟩ := bind_eq_ok.mp hrun
      obtain ⟨shown, hshow, hrun⟩ := bind_eq_ok.mp hrun
      obtain ⟨-, rfl⟩ := Prod.mk.inj (Except.ok.inj hrun)
      obtain ⟨hbuilt, hheld⟩ := h.pageContent hclient (h.apps id app happ) hcontent
      exact (hbuilt.showContent hheld hshow).setCurrent id name

theorem Tidy.refreshPage (h : w.Tidy) (hclient : client.KeepsTidy) {id : AppId} {found : Bool}
    (hrun : w.refreshPage client id = .ok (found, w')) : w'.Tidy := by
  unfold World.refreshPage at hrun
  split at hrun
  · obtain ⟨-, rfl⟩ := Prod.mk.inj (Except.ok.inj hrun)
    exact h
  · rename_i app happ
    split at hrun
    · obtain ⟨-, rfl⟩ := Prod.mk.inj (Except.ok.inj hrun)
      exact h
    · obtain ⟨⟨content, built⟩, hcontent, hrun⟩ := bind_eq_ok.mp hrun
      obtain ⟨shown, hshow, hrun⟩ := bind_eq_ok.mp hrun
      obtain ⟨-, rfl⟩ := Prod.mk.inj (Except.ok.inj hrun)
      obtain ⟨hbuilt, hheld⟩ := h.pageContent hclient (h.apps id app happ) hcontent
      obtain ⟨hosts, client', hreplaced⟩ := built.replace_eq app.host ""
      refine (hbuilt.replace app.host "").showContent ?_ hshow
      rw [hreplaced]
      exact hheld

/-! ### What a client does -/

/-- A single thing that a client does with a world, by itself or through the library. -/
inductive Acts (client : Client σ) : World σ → World σ → Prop where
  /-- A node is created in a registry that there is, around live nodes. -/
  | create {w : World σ} {registry : RegistryId}
      (hregistry : w.registries.contains registry = true) (kind : Kind) (tag : String)
      (attributes : Attributes) {content : List Child}
      (hcontent : ∀ n, .node n ∈ content → ∃ node, w.node? n = some node) :
      Acts client w (w.create registry kind tag attributes content).2
  /-- Entries, the nodes among them alive, are added to the content of a node. -/
  | nest {w : World σ} (node : NodeId) {content : List Child}
      (hcontent : ∀ n, .node n ∈ content → ∃ node, w.node? n = some node) :
      Acts client w (w.modifyNode node (Node.addContent · content))
  /-- Classes, attributes or the state of a node are changed. -/
  | retouch (w : World σ) (node : NodeId) {f : Node → Node}
      (hf : ∀ node : Node, node.Tied (f node)) : Acts client w (w.modifyNode node f)
  | hold {w : World σ} {root : Root} (hroot : w.Offers root) : Acts client w (w.hold root)
  | release (w : World σ) (root : Root) : Acts client w (w.release root)
  | releaseAll (w : World σ) (nodes : List NodeId) : Acts client w (w.releaseAll nodes)
  | addRegistry (w : World σ) (config : Config) : Acts client w (w.addRegistry config)
  /-- An id is generated, or a rule is added. -/
  | modifyRegistry (w : World σ) (registry : RegistryId) {f : Registry → Registry}
      (hf : ∀ r, (f r).entries = r.entries) : Acts client w (w.modifyRegistry registry f)
  | addRecorder (w : World σ) (handler : Handler) : Acts client w (w.addRecorder handler)
  /-- An application that shows nothing yet is added. -/
  | addApp {w : World σ} {app : App} (hregistry : w.registries.contains app.registry = true)
      (hmounted : app.mounted? = none) : Acts client w (w.addApp app)
  /-- A page or a watcher is added, or a watcher is removed. -/
  | modifyApp (w : World σ) (id : AppId) {f : App → App}
      (hregistry : ∀ app, (f app).registry = app.registry)
      (hmounted : ∀ app, (f app).mounted? = app.mounted?) : Acts client w (w.modifyApp id f)
  /-- Observables, hosts or the state of the client are changed. -/
  | beside {w w' : World σ} (hnodes : w'.nodes = w.nodes) (hheld : w'.held = w.held)
      (happs : w'.apps = w.apps) (hregistries : w'.registries = w.registries) : Acts client w w'
  | render {w w' : World σ} {node form : NodeId} (hrun : w.render node = .ok (form, w')) :
      Acts client w w'
  | renderAsContainer {w w' : World σ} {node form : NodeId}
      (hrun : w.renderAsContainer node = .ok (form, w')) : Acts client w w'
  | write {w w' : World σ} {node : NodeId} {markup : String}
      (hrun : w.write node = .ok (markup, w')) : Acts client w w'
  | mount {w w' : World σ} {node form : NodeId} {host : HostId}
      (hrun : w.mount node host = .ok (form, w')) : Acts client w w'
  | refresh {w w' : World σ} {node : NodeId} (hrun : w.refresh node = .ok w') : Acts client w w'
  | setState {w w' : World σ} {node : NodeId} {entries : List (String × Value)}
      (hrun : w.setState node entries = .ok w') : Acts client w w'
  | mutate {w w' : World σ} {observable : ObservableId} {mutation : Mutation}
      (hrun : w.mutate client observable mutation = .ok w') : Acts client w w'
  /-- Listeners that the client keeps itself are told a value. -/
  | announce {w w' : World σ} {listeners : List Handler} {value : Value}
      (hrun : w.announce client listeners value = .ok w') : Acts client w w'
  | attachClick {w w' : World σ} {host : HostId} {label : String} {handler : Handler}
      {answer : Except LookupError Unit}
      (hrun : w.attachClick client host label handler = .ok (answer, w')) : Acts client w w'
  | attachAction {w w' : World σ} {node : NodeId} {host : HostId}
      (hrun : w.attachAction client node host = .ok w') : Acts client w w'
  | whenReady {w w' : World σ} {node : NodeId} {host : HostId}
      (hrun : World.whenReady client host w node = .ok w') : Acts client w w'
  | load {w w' : World σ} {registry : RegistryId} {host : HostId}
      (hrun : w.load client registry host = .ok w') : Acts client w w'
  | click {w w' : World σ} {host : HostId} {label : String} {count : Nat}
      (hrun : w.click client host label = .ok (count, w')) : Acts client w w'
  | renderPage {w w' : World σ} {app : AppId} {name : String} {found : Bool}
      (hrun : w.renderPage client app name = .ok (found, w')) : Acts client w w'
  | refreshPage {w w' : World σ} {app : AppId} {found : Bool}
      (hrun : w.refreshPage client app = .ok (found, w')) : Acts client w w'

/-- Whatever a client does leaves worlds tidy, if its answers to calls do. -/
theorem Acts.tidy (hacts : Acts client w w') (hclient : client.KeepsTidy) (h : w.Tidy) :
    w'.Tidy := by
  cases hacts with
  | create hregistry kind tag attributes hcontent =>
    exact (h.create hregistry kind tag attributes hcontent).1
  | nest node hcontent => exact h.nest node hcontent
  | retouch node hf => exact h.retouch hf
  | hold hroot => exact h.hold hroot
  | release root => exact h.release root
  | releaseAll nodes => exact h.releaseAll nodes
  | addRegistry config => exact h.addRegistry config
  | modifyRegistry registry hf => exact h.modifyRegistry registry hf
  | addRecorder handler => exact h.addRecorder handler
  | addApp hregistry hmounted => exact h.addApp hregistry hmounted
  | modifyApp id hregistry hmounted => exact h.modifyApp hregistry hmounted
  | beside hnodes hheld happs hregistries => exact h.of_eq hnodes hheld happs hregistries
  | render hrun => exact (h.render hrun).1
  | renderAsContainer hrun => exact (h.renderAsContainer hrun).1
  | write hrun => exact h.write hrun
  | mount hrun => exact (h.mount hrun).1
  | refresh hrun => exact h.refresh hrun
  | setState hrun => exact h.setState hrun
  | mutate hrun => exact Tidy.passage.mutate hclient.call hrun h
  | announce hrun => exact Tidy.passage.announce hclient.call hrun h
  | attachClick hrun => exact Tidy.passage.attachClick hclient.call hrun h
  | attachAction hrun => exact Tidy.passage.attachAction hclient.call hrun h
  | whenReady hrun => exact Tidy.passage.whenReady hclient.call hrun h
  | load hrun => exact h.load hclient hrun
  | click hrun => exact Tidy.passage.click hclient.call hrun h
  | renderPage hrun => exact h.renderPage hclient hrun
  | refreshPage hrun => exact h.refreshPage hclient hrun

/-- One thing after the other. -/
theorem Tidy.reaches (h : w.Tidy) (hclient : client.KeepsTidy)
    (hrun : Relation.ReflTransGen (Acts client) w w') : w'.Tidy := by
  induction hrun with
  | refl => exact h
  | tail _ hacts ih => exact hacts.tidy hclient ih

/-- Every world that a client reaches is sound: whatever is referred to is alive, whatever is alive
is referred to, and registries list it. When the client has given up all its references, no node is
left, unless nodes keep each other alive in a circle. -/
theorem sound_of_reaches (hclient : client.KeepsTidy) {state : σ}
    (hrun : Relation.ReflTransGen (Acts client) { client := state } w) :
    w.Sound ∧ ((∀ n, ¬w.Rooted n) → ∀ rank : NodeId → Nat,
      (∀ parent n, w.Owns (fun _ ↦ False) parent n → rank n < rank parent) →
        ∀ n, w.node? n = none) := by
  have hempty : ({ client := state } : World σ).Tidy :=
    .of_empty (fun _ ↦ rfl) (fun _ ↦ rfl) rfl fun _ ↦ rfl
  have htidy := hempty.reaches hclient hrun
  exact ⟨htidy.sound, fun hroots rank hrank ↦ htidy.node?_eq_none hroots hrank⟩

end World

end LiveMarkup
