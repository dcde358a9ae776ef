import LiveMarkup.Proofs.Calls.Passing
import LiveMarkup.Proofs.Pages.Delivery
import LiveMarkup.Proofs.World.Conduct
import LiveMarkup.World.Clicking

/-!
Everything that the library can be asked to do. A relation between worlds that is kept up by the
single things that are done to nodes, and by the answers of the client, holds between the worlds
before and after each operation (`World.Conduct.operates`), however deep renderings, mutations, load
passes, clicks and pages nest.
-/

set_option autoImplicit false
set_option relaxedAutoImplicit false

namespace LiveMarkup.World

variable {σ : Type} [Journal σ]

/-- An operation of the library, with a client. -/
inductive Operates (client : Client σ) : World σ → World σ → Prop where
  | create (w : World σ) (registry : RegistryId) (kind : Kind) (tag : String)
      (attributes : Attributes) (content : List Child) :
      Operates client w (w.create registry kind tag attributes content).2
  | render {w w' : World σ} {node form : NodeId} (hrun : w.render node = .ok (form, w')) :
      Operates client w w'
  | renderAsContainer {w w' : World σ} {node form : NodeId}
      (hrun : w.renderAsContainer node = .ok (form, w')) : Operates client w w'
  | write {w w' : World σ} {node : NodeId} {markup : String}
      (hrun : w.write node = .ok (markup, w')) : Operates client w w'
  | mount {w w' : World σ} {node form : NodeId} {host : HostId}
      (hrun : w.mount node host = .ok (form, w')) : Operates client w w'
  | refresh {w w' : World σ} {node : NodeId} (hrun : w.refresh node = .ok w') :
      Operates client w w'
  | setState {w w' : World σ} {node : NodeId} {entries : List (String × Value)}
      (hrun : w.setState node entries = .ok w') : Operates client w w'
  | mutate {w w' : World σ} {observable : ObservableId} {mutation : Mutation}
      (hrun : w.mutate client observable mutation = .ok w') : Operates client w w'
  | attachClick {w w' : World σ} {host : HostId} {label : String} {handler : Handler}
      {answer : Except LookupError Unit}
      (hrun : w.attachClick client host label handler = .ok (answer, w')) : Operates client w w'
  | load {w w' : World σ} {registry : RegistryId} {host : HostId}
      (hrun : w.load client registry host = .ok w') : Operates client w w'
  | click {w w' : World σ} {host : HostId} {label : String} {count : Nat}
      (hrun : w.click client host label = .ok (count, w')) : Operates client w w'
  | renderPage {w w' : World σ} {app : AppId} {name : String} {found : Bool}
      (hrun : w.renderPage client app name = .ok (found, w')) : Operates client w w'
  | refreshPage {w w' : World σ} {app : AppId} {found : Bool}
      (hrun : w.refreshPage client app = .ok (found, w')) : Operates client w w'
  /-- Classes, content, attributes or state of a node are changed. -/
  | modifyNode (w : World σ) (node : NodeId) (f : Node → Node) :
      Operates client w (w.modifyNode node f)
  /-- What nothing keeps alive is dropped. -/
  | sweep (w : World σ) : Operates client w w.sweep
  /-- Ids are generated, registries and recorders are added, and observables, hosts, applications,
  references and the state of the client change. -/
  | outside {w w' : World σ} (hnodes : w'.nodes = w.nodes)
      (hrecorders : w.recorders.Ages w'.recorders) (hregistries : w.ListsAlike w') :
      Operates client w w'

namespace Reporting

variable {R : World σ → World σ → Prop} (h : Reporting R) {w w' : World σ}

include h

theorem passage : Passage R where
  refl := h.refl
  trans := h.trans
  changeHosts _ _ := h.of_eq rfl rfl rfl rfl
  note := h.note
  holdNode _ := h.of_eq rfl rfl rfl rfl
  holdRecorder _ _ := h.of_eq rfl rfl rfl rfl
  release := h.release
  store _ _ _ := h.of_eq rfl rfl rfl rfl
  prune _ _ := h.of_eq rfl rfl rfl rfl
  refresh _ _ hrun := h.refresh hrun

theorem replace (w : World σ) (host : HostId) (markup : String) :
    R w (w.replace host markup) := by
  unfold World.replace
  split
  · exact h.of_eq rfl rfl rfl rfl
  · exact h.note w _

theorem foldl_note {α : Type} (report : α → Note) (list : List α) (w : World σ) :
    R w (list.foldl (fun w a ↦ w.note (report a)) w) := by
  induction list generalizing w with
  | nil => exact h.refl w
  | cons a list ih => exact h.trans (h.note w _) (ih _)

theorem setCurrent (w : World σ) (app : AppId) (name : String) : R w (w.setCurrent app name) := by
  unfold World.setCurrent
  split
  · exact h.refl w
  · dsimp only
    split
    · exact h.of_eq rfl rfl rfl rfl
    · refine h.trans ?_ (h.foldl_note (fun row : WatcherId × String ↦ .page row.2 (some name)) _ _)
      exact h.of_eq rfl rfl rfl rfl

variable {client : Client σ}

theorem load (hcall : ∀ call w w', client.call call w = .ok w' → R w w')
    {registry : RegistryId} {host : HostId}
    (hrun : w.load client registry host = .ok w') : R w w' := by
  obtain ⟨ready, hready, hrun⟩ := bind_eq_ok.mp hrun
  obtain rfl : ready.releaseAll (w.liveNodes registry) = w' := Except.ok.inj hrun
  have hheld : R w (w.holdAll (w.liveNodes registry)) := h.of_eq rfl rfl rfl rfl
  have hpassed := h.passage.foldlM (fun _ _ _ hwhen ↦ h.passage.whenReady hcall hwhen) hready
  exact h.trans (h.trans hheld hpassed) (h.releaseAll ready _)

section Pages

variable (hpage : ∀ renderer registry w content? w',
  client.page renderer registry w = .ok (content?, w') → R w w')

include hpage

theorem pageContent {app : App} {name : String} {page : Page} {content : NodeId}
    (hrun : w.pageContent client app name page = .ok (content, w')) : R w w' := by
  obtain ⟨⟨content?, built⟩, hbuild, hrun⟩ := bind_eq_ok.mp hrun
  have hbuilt := hpage _ _ _ _ _ hbuild
  cases content? with
  | some content =>
    obtain ⟨-, rfl⟩ := Prod.mk.inj (Except.ok.inj hrun)
    exact hbuilt
  | none =>
    have hcreated := h.create built app.registry .plain
      (built.registry app.registry).config.fallbackTag ∅ [.text (Page.placeholder name)]
    obtain ⟨-, rfl⟩ := Prod.mk.inj (Except.ok.inj hrun)
    exact h.trans hbuilt hcreated

omit hpage in
theorem showContent {app : AppId} {host : HostId} {content : NodeId}
    (hrun : w.showContent app host content = .ok w') : R w w' := by
  obtain ⟨⟨form, mounted⟩, hmount, hrun⟩ := bind_eq_ok.mp hrun
  have hmodified : R mounted
      (mounted.modifyApp app fun app ↦ { app with mounted? := some content }) :=
    h.of_eq rfl rfl rfl rfl
  obtain rfl := Except.ok.inj hrun
  exact h.trans (h.trans (h.mount hmount) hmodified) (h.releaseAll _ _)

theorem renderPage {app : AppId} {name : String} {found : Bool}
    (hrun : w.renderPage client app name = .ok (found, w')) : R w w' := by
  unfold World.renderPage at hrun
  split at hrun
  · obtain ⟨-, rfl⟩ := Prod.mk.inj (Except.ok.inj hrun)
    exact h.refl w
  · split at hrun
    · obtain ⟨-, rfl⟩ := Prod.mk.inj (Except.ok.inj hrun)
      exact h.refl w
    · obtain ⟨⟨content, built⟩, hcontent, hrun⟩ := bind_eq_ok.mp hrun
      obtain ⟨shown, hshow, hrun⟩ := bind_eq_ok.mp hrun
      obtain ⟨-, rfl⟩ := Prod.mk.inj (Except.ok.inj hrun)
      exact h.trans (h.trans (h.pageContent hpage hcontent) (h.showContent hshow))
        (h.setCurrent shown app name)

theorem refreshPage {app : AppId} {found : Bool}
    (hrun : w.refreshPage client app = .ok (found, w')) : R w w' := by
  unfold World.refreshPage at hrun
  split at hrun
  · obtain ⟨-, rfl⟩ := Prod.mk.inj (Except.ok.inj hrun)
    exact h.refl w
  · rename_i shownApp _
    split at hrun
    · obtain ⟨-, rfl⟩ := Prod.mk.inj (Except.ok.inj hrun)
      exact h.refl w
    · obtain ⟨⟨content, built⟩, hcontent, hrun⟩ := bind_eq_ok.mp hrun
      obtain ⟨shown, hshow, hrun⟩ := bind_eq_ok.mp hrun
      obtain ⟨-, rfl⟩ := Prod.mk.inj (Except.ok.inj hrun)
      have hreplaced := h.trans (h.pageContent hpage hcontent) (h.replace built shownApp.host "")
      exact h.trans hreplaced (h.showContent hshow)

end Pages

end Reporting

/-- Every operation keeps a relation up that single things and the client keep up. -/
theorem Conduct.operates {R : World σ → World σ → Prop} (h : Conduct R) {client : Client σ}
    {w w' : World σ} (hcall : ∀ call w w', client.call call w = .ok w' → R w w')
    (hpage : ∀ renderer registry w content? w',
      client.page renderer registry w = .ok (content?, w') → R w w')
    (hoperates : Operates client w w') : R w w' := by
  have hreporting := h.reporting
  cases hoperates with
  | create registry kind tag attributes content => exact hreporting.create w ..
  | render hrun => exact hreporting.render hrun
  | renderAsContainer hrun => exact hreporting.renderAsContainer hrun
  | write hrun => exact hreporting.write hrun
  | mount hrun => exact hreporting.mount hrun
  | refresh hrun => exact hreporting.refresh hrun
  | setState hrun => exact hreporting.setState hrun
  | mutate hrun => exact hreporting.passage.mutate hcall hrun
  | attachClick hrun => exact hreporting.passage.attachClick hcall hrun
  | load hrun => exact hreporting.load hcall hrun
  | click hrun => exact hreporting.passage.click hcall hrun
  | renderPage hrun => exact hreporting.renderPage hpage hrun
  | refreshPage hrun => exact hreporting.refreshPage hpage hrun
  | modifyNode node f => exact h.modifyNode w node f
  | sweep => exact h.sweep w
  | outside hnodes hrecorders hregistries => exact h.outside hnodes hrecorders hregistries

end LiveMarkup.World
