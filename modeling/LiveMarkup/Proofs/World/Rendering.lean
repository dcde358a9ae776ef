import LiveMarkup.Proofs.World.Carrying
import Mathlib.Data.List.Perm.Basic

/-!
What rendering does to a world. Rendering a live node adds nodes, takes one reference, to the
form that it returns, and carries everything else over (`World.renderWithin_renders`), whatever
the node is and whether or not its content is sound.
-/

set_option autoImplicit false
set_option relaxedAutoImplicit false

namespace LiveMarkup

theorem bind_eq_ok {ε α β : Type} {x : Except ε α} {f : α → Except ε β} {b : β} :
    (x >>= f) = .ok b ↔ ∃ a, x = .ok a ∧ f a = .ok b := by
  cases x <;> simp [bind, Except.bind]

namespace World

variable {σ : Type} {w w' : World σ} {skip : NodeId → Prop}

/-- A world after a node was rendered: one reference was taken, to the form, which is the node
itself or new. -/
structure Renders (skip : NodeId → Prop) (w w' : World σ) (id form : NodeId) : Prop where
  carries : w.Carries skip w'
  held : w'.held.Perm (.node form :: w.held)
  hosts : w'.hosts = w.hosts
  own : form = id ∨ w.nodes.next ≤ form

/-! ### Rendering content -/

/-- Giving up a reference leaves those that there were besides. -/
theorem erase_perm {held rest : List Root} {root : Root} (h : held.Perm (root :: rest)) :
    (held.erase root).Perm rest := by
  have herase := h.erase root
  rwa [List.erase_cons_head] at herase

/-- Giving up the references to forms leaves those that there were besides. -/
theorem foldl_erase_perm {held rest : List Root} {forms : List NodeId}
    (h : held.Perm (forms.map .node ++ rest)) :
    (forms.foldl (fun held node ↦ held.erase (.node node)) held).Perm rest := by
  induction forms generalizing held with
  | nil => exact h
  | cons form forms ih =>
    rw [List.foldl_cons]
    exact ih (erase_perm h)

/-- Giving up the references to forms leaves one that was taken after them. -/
theorem foldl_erase_perm_of_cons {held laid rest : List Root} {forms : List NodeId} {root : Root}
    (h : held.Perm (root :: laid)) (hlaid : laid.Perm (forms.map .node ++ rest)) :
    (forms.foldl (fun held node ↦ held.erase (.node node)) held).Perm (root :: rest) :=
  foldl_erase_perm (h.trans ((hlaid.cons root).trans List.perm_middle.symm))

/-- What holds of rendering single live nodes. -/
def RendersNodes (skip : NodeId → Prop)
    (renderNode : World σ → NodeId → Except Fault (NodeId × World σ)) : Prop :=
  ∀ w id form w', (∃ node, w.node? id = some node) → renderNode w id = .ok (form, w') →
    Renders skip w w' id form

theorem renderLayouts_renders {renderNode : World σ → NodeId → Except Fault (NodeId × World σ)}
    (hrender : RendersNodes skip renderNode) {content content' : List Child} {forms : List NodeId}
    (h : renderLayouts renderNode w content = .ok (content', forms, w')) :
    w.Carries skip w' ∧ w'.held.Perm (forms.map .node ++ w.held) ∧ w'.hosts = w.hosts := by
  induction content generalizing w content' forms with
  | nil =>
    obtain ⟨-, rfl, rfl⟩ : [] = content' ∧ [] = forms ∧ w = w' := by simpa [renderLayouts] using h
    exact ⟨.refl skip w, .refl _, rfl⟩
  | cons child content ih =>
    rw [renderLayouts] at h
    split at h
    · rename_i id hid
      obtain ⟨⟨form, first⟩, hform, h⟩ := bind_eq_ok.mp h
      obtain ⟨⟨rest, forms', last⟩, hrest, h⟩ := bind_eq_ok.mp h
      obtain ⟨-, rfl, rfl⟩ : _ = content' ∧ form :: forms' = forms ∧ last = w' := by
        simpa [pure, Except.pure] using h
      have hlive : ∃ node, w.node? id = some node := by
        obtain ⟨_, hany⟩ := Option.filter_eq_some_iff.mp hid
        cases hnode : w.node? id with
        | none => simp [hnode] at hany
        | some node => exact ⟨node, rfl⟩
      obtain ⟨hcarries, hheld, hhosts, _⟩ := hrender w id form first hlive hform
      obtain ⟨hcarries', hheld', hhosts'⟩ := ih hrest
      refine ⟨hcarries.trans hcarries', ?_, hhosts'.trans hhosts⟩
      rw [List.map_cons, List.cons_append]
      exact hheld'.trans ((hheld.append_left _).trans List.perm_middle)
    · obtain ⟨⟨rest, forms', last⟩, hrest, h⟩ := bind_eq_ok.mp h
      obtain ⟨-, rfl, rfl⟩ : _ = content' ∧ forms' = forms ∧ last = w' := by
        simpa [pure, Except.pure] using h
      exact ih hrest

/-! ### Creating plain nodes -/

/-- A node as it is created plain, without an id of its own. -/
def freshPlain (w : World σ) (registry : RegistryId) (tag : String) (attributes : Attributes)
    (content : List Child) : Node :=
  let attributes := attributes.insert "id" (.text (w.registry registry).nextId)
  let presentation := resolve attributes (w.registry registry).config.baseClass ∅
  { tag, kind := .plain, registry, attributes, content
    classes := presentation.classes
    style := presentation.style
    flags := presentation.flags }

variable [Journal σ]

/-- A plain node without an id is created under the next number and the next id. -/
theorem createPlain_renders (w : World σ) (registry : RegistryId) (tag : String)
    {attributes : Attributes} (hid : attributes.contains "id" = false) (content : List Child) :
    ∃ w' : World σ, w.createPlain registry tag attributes content = (w.nodes.next, w') ∧
      (∀ skip id, Renders skip w w' id w.nodes.next) ∧
      w'.node? w.nodes.next = some (w.freshPlain registry tag attributes content) := by
  let counted := w.modifyRegistry registry Registry.countId
  let node := w.freshPlain registry tag attributes content
  let pushed : World σ :=
    { counted with nodes := w.nodes.push node, held := .node w.nodes.next :: w.held }
  let listed := pushed.modifyRegistry registry
    (Registry.register pushed.nodes.idSet.contains w.nodes.next)
  have hnode : listed.node? w.nodes.next = some node := by
    show (w.nodes.push node).get? w.nodes.next = some node
    rw [Table.get?_push, if_pos rfl]
  have hcounted (skip : NodeId → Prop) : w.Carries skip counted :=
    (Carries.refl skip w).modifyRegistry registry (fun _ ↦ rfl) fun _ ↦ Nat.le_succ _
  refine ⟨listed, ?_, fun skip id ↦ ⟨?_, .refl _, rfl, .inr (Nat.le_refl _)⟩, hnode⟩
  · unfold createPlain create
    rw [withId, if_neg (by simp [hid])]
    have hconfig : (counted.registry registry).config = (w.registry registry).config :=
      (hcounted fun _ ↦ False).config registry
    dsimp only
    rw [hconfig]
    show (w.nodes.next, listed.afterCreation w.nodes.next) = _
    rw [afterCreation, hnode]
    rfl
  · have hadded : w.Carries skip { counted with nodes := w.nodes.push node } :=
      (hcounted skip).push rfl
    have hpushed : w.Carries skip pushed :=
      hadded.changeHeld fun root hroot ↦ List.mem_cons_of_mem _ hroot
    exact hpushed.modifyRegistry registry (fun _ ↦ rfl) fun _ ↦ Nat.le_refl _

/-! ### Rendering nodes -/

theorem contains_id_layoutAttributes (node : Node) :
    (layoutAttributes node).contains "id" = false := by
  unfold layoutAttributes
  split <;> rfl

theorem renderContainer_renders {renderNode : World σ → NodeId → Except Fault (NodeId × World σ)}
    (hrender : RendersNodes skip renderNode) {node : Node} {form : NodeId}
    (h : renderContainer renderNode w node = .ok (form, w')) (id : NodeId) :
    Renders skip w w' id form := by
  obtain ⟨⟨content, forms, laid⟩, hlayouts, h⟩ := bind_eq_ok.mp h
  obtain ⟨hcarries, hheld, hhosts⟩ := renderLayouts_renders hrender hlayouts
  obtain ⟨created, hcreate, hcreated, _⟩ := laid.createPlain_renders node.registry "div"
    (contains_id_layoutAttributes node) content
  dsimp only at h
  rw [hcreate] at h
  obtain ⟨rfl, rfl⟩ : laid.nodes.next = form ∧ created.releaseAll forms = w' := by
    simpa [pure, Except.pure] using h
  have hreleased : (created.releaseAll forms).held.Perm (.node laid.nodes.next :: w.held) :=
    foldl_erase_perm_of_cons (hcreated skip id).held hheld
  refine ⟨?_, hreleased, (hcreated skip id).hosts.trans hhosts, .inr hcarries.next⟩
  refine ((hcarries.trans (hcreated skip id).carries).changeHeld fun root hroot ↦ ?_).sweep
  exact hreleased.mem_iff.mpr (List.mem_cons_of_mem _ hroot)

/-- Rendering a live node takes a reference to the form that it returns and carries everything
else over. -/
theorem renderWithin_renders (depth : Nat) : RendersNodes (σ := σ) skip (renderWithin depth) := by
  induction depth with
  | zero =>
    intro w id form w' _ h
    cases h
  | succ depth ih =>
    rintro w id form w' ⟨node, hnode⟩ h
    have hplain (tag : String) (content : List Child)
        (h : (.ok (w.createPlain node.registry tag ∅ content) : Except Fault _) = .ok (form, w')) :
        Renders skip w w' id form := by
      have hid : (∅ : Attributes).contains "id" = false := rfl
      obtain ⟨created, hcreate, hcreated, _⟩ := w.createPlain_renders node.registry tag hid content
      rw [hcreate] at h
      obtain ⟨rfl, rfl⟩ : w.nodes.next = form ∧ created = w' := by simpa using h
      exact hcreated skip id
    have hitself (h : (.ok (id, w.hold (.node id)) : Except Fault _) = .ok (form, w')) :
        Renders skip w w' id form := by
      obtain ⟨rfl, rfl⟩ : id = form ∧ w.hold (.node id) = w' := by simpa using h
      exact ⟨(Carries.refl skip w).changeHeld fun root hroot ↦ List.mem_cons_of_mem _ hroot,
        .refl _, rfl, .inl rfl⟩
    rw [renderWithin, hnode] at h
    dsimp only at h
    cases hkind : node.kind <;> rw [hkind] at h
    · exact hitself h
    · exact renderContainer_renders ih h id
    · exact renderContainer_renders ih h id
    · exact hplain "p" node.content h
    · exact hitself h
    · exact hplain "h1" (greetingContent node) h
    · exact hitself h
    · exact hitself h
    · exact renderContainer_renders ih h id

end World

end LiveMarkup
