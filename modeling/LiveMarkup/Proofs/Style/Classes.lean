import LiveMarkup.Proofs.Style.Resolution
import LiveMarkup.Proofs.World.Carrying
import Mathlib.Data.List.Induction
import Mathlib.Data.List.Nodup

/-!
The classes of a node. Resolution lists the base class and the classes of the flags; a component
adds its own when the node is created (`Kind.ownClasses`), and client code more later. Only what is
added is compared with what is there. The list therefore starts with the base class and grows at its
end only, and no class behind the base is there twice; the base class is there twice exactly if it
is the class of a flag that the attributes set (`World.exists_classes`).
-/

set_option autoImplicit false
set_option relaxedAutoImplicit false

namespace LiveMarkup

/-! ### Adding classes to a node -/

/-- The classes that a component adds to a node that was just created. -/
def Kind.ownClasses : Kind → List String
  | .flexLayout => [Flag.flex.className]
  | .panel => ["panel"]
  | _ => []

namespace Node

/-- Adds classes one after the other. -/
def addClasses (node : Node) (names : List String) : Node := names.foldl addClass node

theorem addClasses_append (node : Node) (names more : List String) :
    node.addClasses (names ++ more) = (node.addClasses names).addClasses more :=
  List.foldl_append

theorem classes_addClass (node : Node) (name : String) :
    (node.addClass name).classes =
      if name ∈ node.classes then node.classes else node.classes ++ [name] := by
  unfold addClass
  by_cases hname : name ∈ node.classes
  · rw [if_pos (List.contains_iff_mem.mpr hname), if_pos hname]
  · rw [if_neg fun hcontains ↦ hname (List.contains_iff_mem.mp hcontains), if_neg hname]

/-- What becomes of the classes depends on the classes only. -/
theorem classes_addClasses_congr {node other : Node} (h : node.classes = other.classes)
    (names : List String) : (node.addClasses names).classes = (other.addClasses names).classes := by
  induction names generalizing node other with
  | nil => exact h
  | cons name names ih =>
    have hstep : (node.addClass name).classes = (other.addClass name).classes := by
      rw [classes_addClass, classes_addClass, h]
    exact ih hstep

/-- What is added comes behind what was there, and is there once. -/
theorem exists_added (node : Node) (names : List String) :
    ∃ added, (node.addClasses names).classes = node.classes ++ added ∧ added.Nodup ∧
      ∀ name, name ∈ added ↔ name ∈ names ∧ name ∉ node.classes := by
  induction names using List.reverseRecOn with
  | nil => exact ⟨[], (List.append_nil _).symm, List.nodup_nil, by simp⟩
  | append_singleton names last ih =>
    obtain ⟨added, hclasses, hnodup, hadded⟩ := ih
    have hlast : (node.addClasses (names ++ [last])).classes =
        if last ∈ node.classes ++ added then node.classes ++ added
        else node.classes ++ added ++ [last] := by
      rw [addClasses_append, ← hclasses]
      exact classes_addClass (node.addClasses names) last
    by_cases hmem : last ∈ node.classes ++ added
    · refine ⟨added, by rw [hlast, if_pos hmem], hnodup, fun name ↦ ?_⟩
      rw [hadded, List.mem_append, List.mem_singleton]
      constructor
      · exact fun h ↦ ⟨.inl h.1, h.2⟩
      · rintro ⟨hname | rfl, hnew⟩
        · exact ⟨hname, hnew⟩
        · exact (hadded name).mp ((List.mem_append.mp hmem).resolve_left hnew)
    · rw [List.mem_append, not_or] at hmem
      refine ⟨added ++ [last], ?_, ?_, fun name ↦ ?_⟩
      · rw [hlast, if_neg fun h ↦ (List.mem_append.mp h).elim hmem.1 hmem.2, List.append_assoc]
      · rw [← List.concat_eq_append]
        exact hnodup.concat hmem.2
      · rw [List.mem_append, List.mem_append, hadded, List.mem_singleton]
        constructor
        · rintro (⟨hname, hnew⟩ | rfl)
          · exact ⟨.inl hname, hnew⟩
          · exact ⟨.inr rfl, hmem.1⟩
        · rintro ⟨hname | rfl, hnew⟩
          · exact .inl ⟨hname, hnew⟩
          · exact .inr rfl

end Node

theorem Flag.nodup_classNames (test : Flag → Bool) :
    ((Flag.all.filter test).map Flag.className).Nodup := by
  have hall : (Flag.all.map Flag.className).Nodup := by decide
  exact hall.sublist (List.filter_sublist.map _)

/-! ### Adding classes in a world -/

namespace World

variable {σ : Type}

/-- Adds classes to a node one after the other. -/
def addClasses (w : World σ) (n : NodeId) (names : List String) : World σ :=
  names.foldl (fun w name ↦ w.modifyNode n (Node.addClass · name)) w

theorem node?_addClasses (w : World σ) (n : NodeId) (names : List String) :
    (w.addClasses n names).node? n = (w.node? n).map (Node.addClasses · names) := by
  induction names generalizing w with
  | nil => exact (Option.map_id' ..).symm
  | cons name names ih =>
    refine (ih (w.modifyNode n (Node.addClass · name))).trans ?_
    rw [node?_modifyNode, if_pos rfl, Option.map_map]
    rfl

/-- The id that a node is given is no flag, so that its classes are the base class of its registry
and those of the flags among its attributes. -/
theorem classes_resolve_withId (w : World σ) (registry : RegistryId) (attributes : Attributes)
    (style : StyleMap) :
    (resolve (w.withId registry attributes).1
        ((w.withId registry attributes).2.registry registry).config.baseClass style).classes =
      (w.registry registry).config.baseClass ::
        (Flag.all.filter fun flag ↦ attributes.contains flag.key).map Flag.className := by
  show _ :: (Flags.ofAttributes (w.withId registry attributes).1).classes = _
  rw [Flags.classes_ofAttributes]
  unfold withId
  split
  · rfl
  · have hcounted : w.Carries (fun _ ↦ False) (w.modifyRegistry registry Registry.countId) :=
      (Carries.refl _ w).modifyRegistry registry (fun _ ↦ rfl) fun _ ↦ Nat.le_succ _
    have hflags (flag : Flag) (value : AttrValue) :
        (attributes.insert "id" value).contains flag.key = attributes.contains flag.key := by
      have hkey : "id" ≠ flag.key := by cases flag <;> decide
      rw [OrderedMap.contains, OrderedMap.get?_insert, if_neg hkey, OrderedMap.contains]
    simp only [hcounted.config, hflags]

variable [Journal σ]

/-- A component adds its own classes to a node that was just created. -/
theorem exists_node?_afterCreation (w : World σ) {n : NodeId} {node : Node}
    (hnode : w.node? n = some node) :
    ∃ node', (w.afterCreation n).node? n = some node' ∧
      node'.classes = (node.addClasses node.kind.ownClasses).classes := by
  have hmodified (f : Node → Node) : (w.modifyNode n f).node? n = some (f node) := by
    rw [node?_modifyNode, if_pos rfl, hnode, Option.map_some]
  unfold afterCreation
  rw [hnode]
  dsimp only
  cases hkind : node.kind with
  | flexLayout => exact ⟨_, hmodified _, rfl⟩
  | panel => exact ⟨_, hmodified _, rfl⟩
  | _ => exact ⟨node, hnode, rfl⟩

/-- A node is created with these classes and what its component adds to them. -/
theorem exists_node?_create (w : World σ) (registry : RegistryId) (kind : Kind) (tag : String)
    (attributes : Attributes) (content : List Child) :
    ∃ resolved created : Node, resolved.classes = (w.registry registry).config.baseClass ::
        (Flag.all.filter fun flag ↦ attributes.contains flag.key).map Flag.className ∧
      created.classes = (resolved.addClasses kind.ownClasses).classes ∧
      (w.create registry kind tag attributes content).2.node?
        (w.create registry kind tag attributes content).1 = some created := by
  let named := w.withId registry attributes
  let presentation := resolve named.1 (named.2.registry registry).config.baseClass
    (kind.style named.1)
  let resolved : Node :=
    { tag, kind, registry, attributes := named.1, content
      classes := presentation.classes
      style := presentation.style
      flags := presentation.flags }
  let pushed : World σ :=
    { named.2 with
      nodes := named.2.nodes.push resolved, held := .node named.2.nodes.next :: named.2.held }
  let listed := pushed.modifyRegistry registry
    (Registry.register pushed.nodes.idSet.contains named.2.nodes.next)
  have hresolved : listed.node? named.2.nodes.next = some resolved := by
    show (named.2.nodes.push resolved).get? named.2.nodes.next = some resolved
    rw [Table.get?_push, if_pos rfl]
  obtain ⟨created, hcreated, hclasses⟩ := listed.exists_node?_afterCreation hresolved
  exact ⟨resolved, created, w.classes_resolve_withId registry attributes (kind.style named.1),
    hclasses, hcreated⟩

/-- A node of any kind has the base class of its registry first, whatever attributes it was created
with and whatever classes were added to it since. Behind it are the classes of the flags that its
attributes set, and what was added by its component and later without being there; none of these is
there twice, so that a class is there twice only if it is the base class and that of a flag. More
classes that are added leave the list as it is in front. -/
theorem exists_classes (w : World σ) (registry : RegistryId) (kind : Kind) (tag : String)
    (attributes : Attributes) (content : List Child) (names : List String) :
    let created := w.create registry kind tag attributes content
    let base := (w.registry registry).config.baseClass
    let flagged := (Flag.all.filter fun flag ↦ attributes.contains flag.key).map Flag.className
    ∃ node added, (created.2.addClasses created.1 names).node? created.1 = some node ∧
      node.classes = base :: (flagged ++ added) ∧ (flagged ++ added).Nodup ∧
      (node.classes.Nodup ↔ base ∉ flagged) ∧
      (∀ name, name ∈ added ↔
        (name ∈ kind.ownClasses ∨ name ∈ names) ∧ name ∉ base :: flagged) ∧
      ∀ more, ∃ later, (created.2.addClasses created.1 (names ++ more)).node? created.1 =
        some later ∧ node.classes <+: later.classes := by
  intro created base flagged
  obtain ⟨resolved, node, hresolved, hnode, hfound⟩ :=
    w.exists_node?_create registry kind tag attributes content
  have hclasses (more : List String) : (node.addClasses more).classes =
      (resolved.addClasses (kind.ownClasses ++ more)).classes := by
    rw [Node.addClasses_append]
    exact Node.classes_addClasses_congr hnode more
  have hafter (more : List String) :
      (created.2.addClasses created.1 more).node? created.1 = some (node.addClasses more) := by
    rw [node?_addClasses, hfound, Option.map_some]
  obtain ⟨added, hadded, hnodup, hmem⟩ := resolved.exists_added (kind.ownClasses ++ names)
  rw [← hclasses, hresolved, List.cons_append] at hadded
  have hbehind : (flagged ++ added).Nodup := by
    refine List.nodup_append.mpr ⟨Flag.nodup_classNames _, hnodup, fun name hflag other hnew ↦ ?_⟩
    rintro rfl
    have hnot := ((hmem name).mp hnew).2
    rw [hresolved] at hnot
    exact hnot (List.mem_cons_of_mem _ hflag)
  have hbase : base ∉ added := fun hnew ↦ ((hmem base).mp hnew).2 (by rw [hresolved]; simp [base])
  refine ⟨node.addClasses names, added, hafter names, hadded, hbehind, ?_, fun name ↦ ?_,
    fun more ↦ ⟨_, hafter (names ++ more), ?_⟩⟩
  · rw [hadded, List.nodup_cons, List.mem_append, not_or]
    exact ⟨fun h ↦ h.1.1, fun h ↦ ⟨⟨h, hbase⟩, hbehind⟩⟩
  · rw [hmem, hresolved, List.mem_append]
  · obtain ⟨further, hfurther, -, -⟩ := (node.addClasses names).exists_added more
    rw [Node.addClasses_append, hfurther]
    exact List.prefix_append _ _

/-- Nothing keeps the base class of a registry from being the class of a flag: an element with this
flag then has the class twice. -/
theorem not_forall_nodup_classes :
    ¬∀ (config : Config) (kind : Kind) (tag : String) (attributes : Attributes)
      (content : List Child) (names : List String) (node : Node),
      let created := (({ client := [] } : World (List Note)).addRegistry config).create 0 kind tag
        attributes content
      (created.2.addClasses created.1 names).node? created.1 = some node → node.classes.Nodup := by
  intro hnodup
  let start := ({ client := [] } : World (List Note)).addRegistry { baseClass := "void-flex" }
  let created := start.create 0 .plain "a" (.ofList [("flex", .flag true)]) []
  have hclasses : ((created.2.addClasses created.1 ["x"]).node? created.1).map Node.classes =
      some ["void-flex", "void-flex", "x"] := by
    decide +kernel
  obtain ⟨node, hnode, hlist⟩ := Option.map_eq_some_iff.mp hclasses
  have hdistinct : node.classes.Nodup := hnodup { baseClass := "void-flex" } .plain "a"
    (.ofList [("flex", .flag true)]) [] ["x"] node hnode
  rw [hlist] at hdistinct
  exact absurd hdistinct (by decide)

end World

end LiveMarkup
