import LiveMarkup.Proofs.Identity.Origins

/-!
The invariant that ties ids, registries and mountings together (`World.Ledger`). Each live node
shows an id that was given to its origin, or one that its registry generated for its origin;
registries list their live nodes in order of creation; and a mounted node that is not displayed as
itself keeps a younger form alive, which shows its id. The invariant is kept by whatever changes no
identity (`Ledger.frame`), when a node is created (`Ledger.added`), and when a node is displayed, as
itself or as a form that was created for it (`Ledger.display_itself`, `Ledger.display_form`).
-/

set_option autoImplicit false
set_option relaxedAutoImplicit false

namespace LiveMarkup

/-- Numbers that are written alike are equal. -/
theorem eq_of_toString_eq {m n : Nat} (h : toString m = toString n) : m = n := by
  rw [Nat.toString_eq_ofList_toDigits, Nat.toString_eq_ofList_toDigits] at h
  have hdigits : Nat.toDigits 10 m = Nat.toDigits 10 n := by
    simpa using congrArg String.toList h
  calc m = Nat.ofDigitChars 10 (Nat.toDigits 10 m) 0 := Nat.ofDigitChars_ten_toDigits.symm
    _ = Nat.ofDigitChars 10 (Nat.toDigits 10 n) 0 := by rw [hdigits]
    _ = n := Nat.ofDigitChars_ten_toDigits

namespace World

variable {σ : Type} {w w' : World σ} {deeds : List Deed}

/-- A registry has generated an id. -/
def HasGenerated (w : World σ) (registry : RegistryId) (id : String) : Prop :=
  ∃ count < (w.registry registry).generated,
    id = (w.registry registry).config.idStem ++ toString count

/-- A node shows the id that its origin was created with, or one that was generated. -/
def Attests (w : World σ) (deeds : List Deed) (n : NodeId) (node : Node) : Prop :=
  .names node.registry (origin deeds n) node.id ∈ deeds ∨
    (Unnamed deeds (origin deeds n) ∧ w.HasGenerated node.registry node.id)

/-- What a mounted node is displayed as: itself, or a younger form that shows its id. -/
def DisplayedAs (w : World σ) (deeds : List Deed) (n : NodeId) (node : Node) : Form → Prop
  | .itself => node.kind.rendersAsItself = true
  | .wrapper form => node.kind.rendersAsItself = false ∧ n < form ∧ origin deeds form = n ∧
    ∃ shown, w.node? form = some shown ∧ shown.id = node.id ∧ shown.registry = node.registry

/-- A node with the same identity is still displayed as it was, if its form stays alive, of the same
origin and with the same identity. -/
theorem DisplayedAs.mono {deeds' : List Deed} {n : NodeId} {node node' : Node} {form : Form}
    (h : w.DisplayedAs deeds n node form) (hid : node'.id = node.id)
    (hkind : node'.kind = node.kind) (hregistry : node'.registry = node.registry)
    (hform : ∀ k shown, form = .wrapper k → n < k → origin deeds k = n → w.node? k = some shown →
      origin deeds' k = n ∧ ∃ shown', w'.node? k = some shown' ∧ shown'.id = shown.id ∧
        shown'.registry = shown.registry) : w'.DisplayedAs deeds' n node' form := by
  cases form with
  | itself =>
    unfold DisplayedAs at h ⊢
    rw [hkind]
    exact h
  | wrapper k =>
    obtain ⟨hwraps, hlt, horigin, shown, hshown, hshownId, hshownRegistry⟩ := h
    obtain ⟨horigin', shown', hshown', hid', hregistry'⟩ := hform k shown rfl hlt horigin hshown
    refine ⟨by rw [hkind, hwraps], hlt, horigin', shown', hshown', ?_, ?_⟩
    · rw [hid', hshownId, hid]
    · rw [hregistry', hshownRegistry, hregistry]

/-- What holds of registries after a run. -/
structure Listing (w : World σ) : Prop where
  exists_registry : ∀ n node, w.node? n = some node → w.registries.contains node.registry = true
  listed : ∀ n node, w.node? n = some node → n ∈ (w.registry node.registry).entries
  increasing : ∀ r, (w.registry r).entries.Pairwise (· < ·)
  bounded : ∀ r, ∀ n ∈ (w.registry r).entries, n < w.nodes.next
  registry : ∀ r, ∀ n ∈ (w.registry r).entries, ∀ node, w.node? n = some node → node.registry = r

/-- What holds of ids, registries and mountings after a run. -/
structure Ledger (deeds : List Deed) (w : World σ) : Prop extends Listing w where
  below : ∀ deed ∈ deeds, deed.subject < w.nodes.next
  origin_le : ∀ n node, w.node? n = some node → origin deeds n ≤ n
  itself : ∀ n node, w.node? n = some node → origin deeds n ≠ n → node.kind.rendersAsItself = true
  attests : ∀ n node, w.node? n = some node → w.Attests deeds n node
  /-- Generated ids are shown by nodes of one origin only. -/
  distinct : ∀ n m node other, w.node? n = some node → w.node? m = some other →
    node.registry = other.registry → Unnamed deeds (origin deeds n) →
      Unnamed deeds (origin deeds m) → node.id = other.id → origin deeds n = origin deeds m
  mounted : ∀ n node mounting, w.node? n = some node → node.mounting? = some mounting →
    w.DisplayedAs deeds n node mounting.form

/-- Registries that list the same nodes list them as they should, if no node is new and none is in
another registry than before. -/
theorem Listing.of_registries (h : w.Listing) (hnext : w'.nodes.next = w.nodes.next)
    (hnodes : ∀ n node', w'.node? n = some node' →
      ∃ node, w.node? n = some node ∧ node'.registry = node.registry)
    (hcontains : ∀ r, w.registries.contains r = true → w'.registries.contains r = true)
    (hentries : ∀ r, (w'.registry r).entries = (w.registry r).entries) : w'.Listing where
  exists_registry := fun n node' hnode' ↦ by
    obtain ⟨node, hnode, hregistry⟩ := hnodes n node' hnode'
    rw [hregistry]
    exact hcontains _ (h.exists_registry n node hnode)
  listed := fun n node' hnode' ↦ by
    obtain ⟨node, hnode, hregistry⟩ := hnodes n node' hnode'
    rw [hregistry, hentries]
    exact h.listed n node hnode
  increasing := fun r ↦ by
    rw [hentries]
    exact h.increasing r
  bounded := fun r n hn ↦ by
    rw [hentries] at hn
    rw [hnext]
    exact h.bounded r n hn
  registry := fun r n hn node' hnode' ↦ by
    rw [hentries] at hn
    obtain ⟨node, hnode, hregistry⟩ := hnodes n node' hnode'
    rw [hregistry]
    exact h.registry r n hn node hnode

theorem Listing.of_nodes (h : w.Listing) (hnodes : w'.nodes = w.nodes)
    (hcontains : ∀ r, w.registries.contains r = true → w'.registries.contains r = true)
    (hentries : ∀ r, (w'.registry r).entries = (w.registry r).entries) : w'.Listing := by
  refine h.of_registries (by rw [hnodes]) (fun n node hnode ↦ ⟨node, ?_, rfl⟩) hcontains hentries
  rwa [node?, hnodes] at hnode

/-- The live nodes of a registry are those that name it. -/
theorem Listing.mem_liveNodes_iff (h : w.Listing) {r : RegistryId} {n : NodeId} :
    n ∈ w.liveNodes r ↔ ∃ node, w.node? n = some node ∧ node.registry = r := by
  rw [liveNodes, List.mem_filter, ← w.nodes.isSome_get? n, Option.isSome_iff_exists]
  constructor
  · rintro ⟨hlisted, node, hnode⟩
    exact ⟨node, hnode, h.registry r n hlisted node hnode⟩
  · rintro ⟨node, hnode, rfl⟩
    exact ⟨h.listed n node hnode, node, hnode⟩

theorem Listing.nodup_liveNodes (h : w.Listing) (r : RegistryId) : (w.liveNodes r).Nodup :=
  ((h.increasing r).imp fun hlt ↦ Nat.ne_of_lt hlt).filter _

/-- A node is listed under the next number, and an id is counted unless it has one of its own. -/
def added (w : World σ) (node : Node) (named : Bool) : World σ :=
  let counted := if named then w else w.modifyRegistry node.registry Registry.countId
  let pushed : World σ :=
    { counted with nodes := w.nodes.push node, held := .node w.nodes.next :: w.held }
  pushed.modifyRegistry node.registry
    (Registry.register pushed.nodes.idSet.contains w.nodes.next)

theorem nodes_added (w : World σ) (node : Node) (named : Bool) :
    (w.added node named).nodes = w.nodes.push node := rfl

theorem node?_added (w : World σ) (node : Node) (named : Bool) (n : NodeId) :
    (w.added node named).node? n = if n = w.nodes.next then some node else w.node? n :=
  Table.get?_push ..

theorem contains_added (w : World σ) (node : Node) (named : Bool) (r : RegistryId) :
    (w.added node named).registries.contains r = w.registries.contains r := by
  refine (contains_modifyRegistry _ _ _ _).trans ?_
  cases named
  · exact contains_modifyRegistry w node.registry r Registry.countId
  · rfl

/-- What becomes of a registry in which a node is listed. -/
theorem registry_added (w : World σ) (node : Node) (named : Bool) (r : RegistryId) :
    (w.added node named).registry r =
      if node.registry = r ∧ w.registries.contains r = true then
        Registry.register (w.nodes.push node).idSet.contains w.nodes.next
          (if named then w.registry r else (w.registry r).countId)
      else w.registry r := by
  refine (registry_modifyRegistry _ node.registry r _).trans ?_
  cases named with
  | true => rfl
  | false =>
    have hcounted := registry_modifyRegistry w node.registry r Registry.countId
    have hcontains := contains_modifyRegistry w node.registry r Registry.countId
    by_cases h : node.registry = r ∧ w.registries.contains r = true
    · rw [if_pos h] at hcounted
      rw [if_pos h, if_pos ⟨h.1, hcontains.trans h.2⟩, if_neg (by simp), ← hcounted]
      rfl
    · rw [if_neg h] at hcounted
      rw [if_neg h, if_neg fun h' ↦ h ⟨h'.1, hcontains.symm.trans h'.2⟩, ← hcounted]
      rfl

namespace Ledger

theorem nil (hnodes : ∀ n, w.node? n = none) (hentries : ∀ r, (w.registry r).entries = []) :
    Ledger [] w where
  below := by simp
  origin_le := fun n node hnode ↦ by simp [hnodes] at hnode
  itself := fun n node hnode ↦ by simp [hnodes] at hnode
  attests := fun n node hnode ↦ by simp [hnodes] at hnode
  distinct := fun n m node other hnode ↦ by simp [hnodes] at hnode
  mounted := fun n node mounting hnode ↦ by simp [hnodes] at hnode
  exists_registry := fun n node hnode ↦ by simp [hnodes] at hnode
  listed := fun n node hnode ↦ by simp [hnodes] at hnode
  increasing := fun r ↦ by simp [hentries]
  bounded := fun r n hn ↦ by simp [hentries] at hn
  registry := fun r n hn ↦ by simp [hentries] at hn

/-- Nothing was done yet to a node that is still to be created. -/
theorem subject_ne (h : Ledger deeds w) {n : NodeId} (hn : w.nodes.next ≤ n) :
    ∀ deed ∈ deeds, deed.subject ≠ n := by
  intro deed hdeed heq
  exact Nat.not_le_of_lt (h.below deed hdeed) (heq ▸ hn)

theorem unnamed (h : Ledger deeds w) {n : NodeId} (hn : w.nodes.next ≤ n) : Unnamed deeds n :=
  fun _ _ hmem ↦ h.subject_ne hn _ hmem rfl

/-! ### Changes that leave identities alone -/

/-- The invariant is kept where no identity changes, if the mounted nodes are displayed as they
should be: no node is new, and the registries list the same nodes, but may have generated more
ids. -/
theorem of_identities (h : Ledger deeds w) (hnext : w'.nodes.next = w.nodes.next)
    (hnodes : ∀ n node', w'.node? n = some node' → ∃ node, w.node? n = some node ∧
      node'.id = node.id ∧ node'.kind = node.kind ∧ node'.registry = node.registry)
    (hcontains : ∀ r, w'.registries.contains r = w.registries.contains r)
    (hentries : ∀ r, (w'.registry r).entries = (w.registry r).entries)
    (hconfig : ∀ r, (w'.registry r).config = (w.registry r).config)
    (hgenerated : ∀ r, (w.registry r).generated ≤ (w'.registry r).generated)
    (hmounted : ∀ n node' mounting, w'.node? n = some node' → node'.mounting? = some mounting →
      w'.DisplayedAs deeds n node' mounting.form) : Ledger deeds w' where
  below := fun deed hdeed ↦ by
    rw [hnext]
    exact h.below deed hdeed
  origin_le := fun n node' hnode' ↦ by
    obtain ⟨node, hnode, -⟩ := hnodes n node' hnode'
    exact h.origin_le n node hnode
  itself := fun n node' hnode' horigin ↦ by
    obtain ⟨node, hnode, -, hkind, -⟩ := hnodes n node' hnode'
    rw [hkind]
    exact h.itself n node hnode horigin
  attests := fun n node' hnode' ↦ by
    obtain ⟨node, hnode, hid, -, hregistry⟩ := hnodes n node' hnode'
    unfold Attests
    rw [hid, hregistry]
    refine (h.attests n node hnode).imp_right fun ⟨hunnamed, count, hcount, hshown⟩ ↦ ?_
    exact ⟨hunnamed, count, Nat.lt_of_lt_of_le hcount (hgenerated _), by rw [hconfig, hshown]⟩
  distinct := fun n m node' other' hnode' hother' hregistry hn hm hid ↦ by
    obtain ⟨node, hnode, hid', -, hregistry'⟩ := hnodes n node' hnode'
    obtain ⟨other, hother, hid'', -, hregistry''⟩ := hnodes m other' hother'
    rw [hregistry', hregistry''] at hregistry
    rw [hid', hid''] at hid
    exact h.distinct n m node other hnode hother hregistry hn hm hid
  mounted := hmounted
  toListing := by
    refine h.toListing.of_registries hnext (fun n node' hnode' ↦ ?_)
      (fun r hr ↦ (hcontains r).trans hr) hentries
    obtain ⟨node, hnode, -, -, hregistry⟩ := hnodes n node' hnode'
    exact ⟨node, hnode, hregistry⟩

theorem displayedAs_frame (hframes : w.Frames w') {n : NodeId} {node node' : Node}
    (hnode' : w'.node? n = some node') (hsame : node.Same node') {mounting : Mounting}
    (hmounting : node'.mounting? = some mounting)
    (h : w.DisplayedAs deeds n node mounting.form) :
    w'.DisplayedAs deeds n node' mounting.form := by
  obtain ⟨host, displayed⟩ := mounting
  refine h.mono hsame.id hsame.kind hsame.registry fun form shown hform _ horigin hshown ↦ ?_
  obtain rfl : displayed = .wrapper form := hform
  have hwrapper : node'.wrapper? = some form := by rw [Node.wrapper?, hmounting]
  obtain ⟨shown', hshown'⟩ :=
    exists_node? (hframes.wrappers n node' form hnode' hwrapper (contains_of_node? hshown))
  obtain ⟨_, hshown'', hsame'⟩ := hframes.nodes form shown' hshown'
  obtain rfl := Option.some.inj (hshown.symm.trans hshown'')
  exact ⟨horigin, shown', hshown', hsame'.id, hsame'.registry⟩

/-- What changes no identity and no mounting keeps the invariant. -/
theorem frame (h : Ledger deeds w) (hframes : w.Frames w') : Ledger deeds w' := by
  refine h.of_identities hframes.next (fun n node' hnode' ↦ ?_) hframes.contains hframes.entries
    hframes.config hframes.generated fun n node' mounting hnode' hmounting ↦ ?_
  · obtain ⟨node, hnode, hsame⟩ := hframes.nodes n node' hnode'
    exact ⟨node, hnode, hsame.id, hsame.kind, hsame.registry⟩
  · obtain ⟨node, hnode, hsame⟩ := hframes.nodes n node' hnode'
    have hdisplayed := h.mounted n node mounting hnode (hsame.mounting ▸ hmounting)
    exact displayedAs_frame hframes hnode' hsame hmounting hdisplayed

/-! ### Creating nodes -/

section Added

variable {node : Node} {named : Bool}

theorem config_added (w : World σ) (node : Node) (named : Bool) (r : RegistryId) :
    ((w.added node named).registry r).config = (w.registry r).config := by
  rw [registry_added]
  split
  · cases named <;> rfl
  · rfl

theorem generated_added (w : World σ) (node : Node) (named : Bool) (r : RegistryId) :
    (w.registry r).generated ≤ ((w.added node named).registry r).generated := by
  rw [registry_added]
  split
  · cases named
    · exact Nat.le_succ _
    · exact Nat.le_refl _
  · exact Nat.le_refl _

theorem mem_entries_added (hregistry : w.registries.contains node.registry = true) {r : RegistryId}
    {n : NodeId} :
    n ∈ ((w.added node named).registry r).entries ↔
      (n ∈ (w.registry r).entries ∧ (node.registry = r → (w.nodes.push node).contains n = true)) ∨
        (node.registry = r ∧ n = w.nodes.next) := by
  rw [registry_added]
  by_cases h : node.registry = r
  · subst h
    rw [if_pos ⟨rfl, hregistry⟩]
    cases named <;>
      simp [Registry.register, Registry.countId, Table.contains_idSet, List.mem_filter]
  · simp [h]

theorem hasGenerated_added {r : RegistryId} {id : String} (h : w.HasGenerated r id) :
    (w.added node named).HasGenerated r id := by
  obtain ⟨count, hcount, rfl⟩ := h
  exact ⟨count, Nat.lt_of_lt_of_le hcount (generated_added w node named r), by rw [config_added]⟩

/-- What is done to ids when a node is created. -/
def naming (node : Node) (n : NodeId) (named : Bool) : List Deed :=
  if named then [.names node.registry n node.id] else []

theorem mem_append_naming {n : NodeId} {deed : Deed} :
    deed ∈ deeds ++ naming node n named ↔
      deed ∈ deeds ∨ (named = true ∧ deed = .names node.registry n node.id) := by
  cases named <;> simp [naming]

theorem origin_append_naming (deeds : List Deed) (node : Node) (created : NodeId) (named : Bool)
    (n : NodeId) : origin (deeds ++ naming node created named) n = origin deeds n := by
  cases named with
  | false => rw [naming, if_neg (by simp), List.append_nil]
  | true => exact origin_append_names deeds node.registry created node.id n

theorem unnamed_of_append_naming {n created : NodeId}
    (h : Unnamed (deeds ++ naming node created named) n) : Unnamed deeds n :=
  fun registry id hmem ↦ h registry id (mem_append_naming.mpr (.inl hmem))

/-- A node that is created shows its own id, or the next one of its registry. -/
theorem attests_added (h : Ledger deeds w) (hregistry : w.registries.contains node.registry = true)
    (hid : named = false → node.id = (w.registry node.registry).nextId) :
    (w.added node named).Attests (deeds ++ naming node w.nodes.next named) w.nodes.next node := by
  have horigin : origin deeds w.nodes.next = w.nodes.next :=
    origin_eq_self (h.subject_ne (Nat.le_refl _))
  unfold Attests
  rw [origin_append_naming, horigin, mem_append_naming]
  cases named with
  | true => exact .inl (.inr ⟨rfl, rfl⟩)
  | false =>
    refine .inr ⟨?_, (w.registry node.registry).generated, ?_, ?_⟩
    · rw [naming, if_neg (by simp), List.append_nil]
      exact h.unnamed (Nat.le_refl _)
    · rw [registry_added, if_pos ⟨rfl, hregistry⟩]
      exact Nat.lt_succ_self _
    · rw [config_added, hid rfl]
      rfl

/-- No node shows the id that is generated next for another one. -/
theorem id_ne_nextId (h : Ledger deeds w) {n : NodeId} {other : Node}
    (hother : w.node? n = some other) (hunnamed : Unnamed deeds (origin deeds n)) :
    other.id ≠ (w.registry other.registry).nextId := by
  rcases h.attests n other hother with hnamed | ⟨_, count, hcount, hid⟩
  · exact absurd hnamed (hunnamed _ _)
  · intro hnext
    have hsame := (String.append_right_inj _).mp (hid.symm.trans hnext)
    exact Nat.ne_of_lt hcount (eq_of_toString_eq hsame)

theorem attests_of_old (h : Ledger deeds w) {n : NodeId} {other : Node}
    (hother : w.node? n = some other) :
    (w.added node named).Attests (deeds ++ naming node w.nodes.next named) n other := by
  unfold Attests
  rw [origin_append_naming]
  rcases h.attests n other hother with hnamed | ⟨hunnamed, hgenerated⟩
  · exact .inl (mem_append_naming.mpr (.inl hnamed))
  · refine .inr ⟨fun registry id hmem ↦ ?_, hasGenerated_added hgenerated⟩
    rcases mem_append_naming.mp hmem with hold | ⟨-, hnew⟩
    · exact hunnamed registry id hold
    · have heq : origin deeds n = w.nodes.next := (Deed.names.inj hnew).2.1
      exact Nat.ne_of_lt (Nat.lt_of_le_of_lt (h.origin_le n other hother) (lt_next_of_node? hother))
        heq

theorem node?_of_added {n : NodeId} {found : Node}
    (hfound : (w.added node named).node? n = some found) :
    (n = w.nodes.next ∧ found = node) ∨ w.node? n = some found := by
  rw [node?_added] at hfound
  split at hfound
  · rename_i hnext
    exact .inl ⟨hnext, (Option.some.inj hfound).symm⟩
  · exact .inr hfound

/-- A node that is created without an id of its own shares the id that it is given with none. -/
theorem id_ne_of_added (h : Ledger deeds w)
    (hid : named = false → node.id = (w.registry node.registry).nextId) {n : NodeId} {old : Node}
    (hold : w.node? n = some old) (hregistry : old.registry = node.registry)
    (hn : Unnamed (deeds ++ naming node w.nodes.next named) (origin deeds n))
    (hnext : Unnamed (deeds ++ naming node w.nodes.next named) w.nodes.next) :
    old.id ≠ node.id := by
  cases named with
  | true => exact absurd (mem_append_naming.mpr (.inr ⟨rfl, rfl⟩)) (hnext node.registry node.id)
  | false =>
    rw [hid rfl, ← hregistry]
    exact h.id_ne_nextId hold (unnamed_of_append_naming hn)

/-- A node that is created is listed as it should be. -/
theorem listing_added (h : w.Listing) (hregistry : w.registries.contains node.registry = true) :
    (w.added node named).Listing where
  exists_registry := fun n found hfound ↦ by
    rw [contains_added]
    rcases node?_of_added hfound with ⟨rfl, rfl⟩ | hold
    · exact hregistry
    · exact h.exists_registry n found hold
  listed := fun n found hfound ↦ by
    rw [mem_entries_added hregistry]
    rcases node?_of_added hfound with ⟨rfl, rfl⟩ | hold
    · exact .inr ⟨rfl, rfl⟩
    · exact .inl ⟨h.listed n found hold, fun _ ↦ contains_of_node? hfound⟩
  increasing := fun r ↦ by
    rw [registry_added]
    split
    · have hfiltered (alive : NodeId → Bool) :
          ((w.registry r).entries.filter alive ++ [w.nodes.next]).Pairwise (· < ·) := by
        refine List.pairwise_append.mpr ⟨(h.increasing r).filter alive, List.pairwise_singleton _ _,
          fun n hn m hm ↦ ?_⟩
        rw [List.mem_singleton.mp hm]
        exact h.bounded r n (List.mem_filter.mp hn).1
      cases named <;> exact hfiltered _
    · exact h.increasing r
  bounded := fun r n hn ↦ by
    rw [nodes_added]
    rcases (mem_entries_added hregistry).mp hn with ⟨hold, -⟩ | ⟨-, rfl⟩
    · exact Nat.lt_succ_of_lt (h.bounded r n hold)
    · exact Nat.lt_succ_self _
  registry := fun r n hn found hfound ↦ by
    rcases node?_of_added hfound with ⟨rfl, rfl⟩ | hold
    · rcases (mem_entries_added hregistry).mp hn with ⟨hmem, -⟩ | ⟨hsame, -⟩
      · exact absurd (h.bounded r _ hmem) (Nat.lt_irrefl _)
      · exact hsame
    · rcases (mem_entries_added hregistry).mp hn with ⟨hmem, -⟩ | ⟨-, rfl⟩
      · exact h.registry r n hmem found hold
      · exact absurd (lt_next_of_node? hold) (Nat.lt_irrefl _)

/-- A node that is created and listed keeps the invariant. -/
theorem added (h : Ledger deeds w) (hmounting : node.mounting? = none)
    (hregistry : w.registries.contains node.registry = true)
    (hid : named = false → node.id = (w.registry node.registry).nextId) :
    Ledger (deeds ++ naming node w.nodes.next named) (w.added node named) := by
  have hnew : origin deeds w.nodes.next = w.nodes.next :=
    origin_eq_self (h.subject_ne (Nat.le_refl _))
  constructor
  case below =>
    intro deed hdeed
    rw [nodes_added]
    rcases mem_append_naming.mp hdeed with hold | ⟨-, rfl⟩
    · exact Nat.lt_succ_of_lt (h.below deed hold)
    · exact Nat.lt_succ_self _
  case origin_le =>
    intro n found hfound
    rw [origin_append_naming]
    rcases node?_of_added hfound with ⟨rfl, rfl⟩ | hold
    · exact Nat.le_of_eq hnew
    · exact h.origin_le n found hold
  case itself =>
    intro n found hfound horigin
    rw [origin_append_naming] at horigin
    rcases node?_of_added hfound with ⟨rfl, rfl⟩ | hold
    · exact absurd hnew horigin
    · exact h.itself n found hold horigin
  case attests =>
    intro n found hfound
    rcases node?_of_added hfound with ⟨rfl, rfl⟩ | hold
    · exact h.attests_added hregistry hid
    · exact h.attests_of_old hold
  case distinct =>
    intro n m found other hfound hother hsame hn hm heq
    rw [origin_append_naming] at hn hm ⊢
    rw [origin_append_naming]
    rcases node?_of_added hfound with ⟨rfl, rfl⟩ | hold <;>
      rcases node?_of_added hother with ⟨rfl, rfl⟩ | hold'
    · rfl
    · rw [hnew] at hn
      exact absurd heq.symm (h.id_ne_of_added hid hold' hsame.symm hm hn)
    · rw [hnew] at hm
      exact absurd heq (h.id_ne_of_added hid hold hsame hn hm)
    · exact h.distinct n m found other hold hold' hsame (unnamed_of_append_naming hn)
        (unnamed_of_append_naming hm) heq
  case mounted =>
    intro n found mounting hfound hfoundMounting
    rcases node?_of_added hfound with ⟨rfl, rfl⟩ | hold
    · rw [hmounting] at hfoundMounting
      cases hfoundMounting
    · refine (h.mounted n found mounting hold hfoundMounting).mono rfl rfl rfl
        fun form shown _ _ horigin hshown ↦
          ⟨by rw [origin_append_naming, horigin], shown, ?_, rfl, rfl⟩
      rw [node?_added, if_neg (Nat.ne_of_lt (lt_next_of_node? hshown)), hshown]
  case toListing => exact listing_added h.toListing hregistry

end Added

/-! ### Displaying nodes -/

/-- A node that is displayed as itself has done nothing to ids. -/
theorem append_displays_self (h : Ledger deeds w) {n : NodeId} (hn : n < w.nodes.next) :
    Ledger (deeds ++ [.displays n n]) w := by
  refine
    { h with
      below := fun deed hdeed ↦ ?_
      origin_le := fun k node hnode ↦ ?_
      itself := fun k node hnode horigin ↦ ?_
      attests := fun k node hnode ↦ ?_
      distinct := fun k m node other hnode hother hregistry hk hm hid ↦ ?_
      mounted := fun k node mounting hnode hmounting ↦ ?_ }
  · rcases List.mem_append.mp hdeed with hold | hnew
    · exact h.below deed hold
    · rw [List.mem_singleton.mp hnew]
      exact hn
  · rw [origin_append_displays_self]
    exact h.origin_le k node hnode
  · rw [origin_append_displays_self] at horigin
    exact h.itself k node hnode horigin
  · unfold Attests
    rw [origin_append_displays_self, names_mem_append_displays,
      unnamed_append_displays]
    exact h.attests k node hnode
  · rw [origin_append_displays_self, unnamed_append_displays] at hk hm
    rw [origin_append_displays_self, origin_append_displays_self]
    exact h.distinct k m node other hnode hother hregistry hk hm hid
  · exact (h.mounted k node mounting hnode hmounting).mono rfl rfl rfl
      fun form shown _ _ horigin hshown ↦
        ⟨by rw [origin_append_displays_self, horigin], shown, hshown, rfl, rfl⟩

theorem takeId_self (h : Ledger deeds w) {n : NodeId} {source : Node}
    (hsource : w.node? n = some source) :
    Ledger (deeds ++ [.displays n n]) (w.takeId n source.id) := by
  refine (h.append_displays_self (lt_next_of_node? hsource)).frame (.modifyNode n ?_)
  intro node hnode
  obtain rfl := Option.some.inj (hsource.symm.trans hnode)
  exact ⟨Node.id_takeId source source.id, rfl, rfl, rfl⟩

end Ledger

/-- A form that was created for a node that is not displayed as itself, and that nothing was done to
yet. -/
structure FreshForm (deeds : List Deed) (w : World σ) (n : NodeId) (source : Node) (form : NodeId)
    (shown : Node) : Prop where
  found : w.node? n = some source
  wraps : source.kind.rendersAsItself = false
  live : w.node? form = some shown
  itself : shown.kind.rendersAsItself = true
  registry : shown.registry = source.registry
  unmounted : shown.mounting? = none
  younger : n < form
  untouched : ∀ deed ∈ deeds, deed.subject ≠ form

namespace FreshForm

variable {n form : NodeId} {source shown : Node}

theorem origin_form (h : FreshForm deeds w n source form shown) :
    origin (deeds ++ [.displays n form]) form = n :=
  origin_append_displays h.untouched n

theorem origin_of_ne {k : NodeId} (hk : k ≠ form) :
    origin (deeds ++ [.displays n form]) k = origin deeds k := by
  have hsubject : (Deed.displays n form).subject ≠ k := Ne.symm hk
  exact origin_append_of_ne hsubject deeds

theorem origin_source (h : FreshForm deeds w n source form shown) (hledger : Ledger deeds w) :
    origin deeds n = n := by
  by_contra hne
  have hitself := hledger.itself n source h.found hne
  rw [h.wraps] at hitself
  cases hitself

/-- When the form takes the id of the node, it is the form that shows it, and other nodes are what
they were. -/
theorem node?_of_takeId (h : FreshForm deeds w n source form shown) {k : NodeId} {found : Node}
    (hfound : (w.takeId form source.id).node? k = some found) :
    (k = form ∧ found = shown.takeId source.id) ∨ (k ≠ form ∧ w.node? k = some found) := by
  rw [node?_takeId] at hfound
  split at hfound
  · rename_i heq
    subst heq
    rw [h.live, Option.map_some] at hfound
    exact .inl ⟨rfl, (Option.some.inj hfound).symm⟩
  · rename_i hne
    exact .inr ⟨Ne.symm hne, hfound⟩

/-- The form shows the id of the node for the same reason. -/
theorem attests_form (h : FreshForm deeds w n source form shown) (hledger : Ledger deeds w) :
    (w.takeId form source.id).Attests (deeds ++ [.displays n form]) form
      (shown.takeId source.id) := by
  have hattests := hledger.attests n source h.found
  have hregistry : (shown.takeId source.id).registry = source.registry := h.registry
  unfold Attests at hattests ⊢
  rw [h.origin_source hledger] at hattests
  rw [h.origin_form, Node.id_takeId, hregistry, names_mem_append_displays, unnamed_append_displays]
  exact hattests

/-- Whatever shares the id that the form takes has the origin of the node. -/
theorem origin_eq (h : FreshForm deeds w n source form shown) (hledger : Ledger deeds w)
    {k : NodeId} {other : Node} (hother : w.node? k = some other)
    (hregistry : (shown.takeId source.id).registry = other.registry) (hn : Unnamed deeds n)
    (hk : Unnamed deeds (origin deeds k)) (hid : (shown.takeId source.id).id = other.id) :
    n = origin deeds k := by
  rw [Node.id_takeId] at hid
  have horigin := h.origin_source hledger
  have hsame := hledger.distinct n k source other h.found hother (h.registry.symm.trans hregistry)
    (by rw [horigin]; exact hn) hk hid
  rw [← hsame, horigin]

end FreshForm

namespace Ledger

/-- A form that was created for a node takes its id. -/
theorem takeId_form (h : Ledger deeds w) {n form : NodeId} {source shown : Node}
    (hfresh : FreshForm deeds w n source form shown) :
    Ledger (deeds ++ [.displays n form]) (w.takeId form source.id) := by
  constructor
  case below =>
    intro deed hdeed
    rcases List.mem_append.mp hdeed with hold | hlast
    · exact h.below deed hold
    · rw [List.mem_singleton.mp hlast]
      show form < w.nodes.next
      exact lt_next_of_node? hfresh.live
  case origin_le =>
    intro k found hfound
    rcases hfresh.node?_of_takeId hfound with ⟨rfl, rfl⟩ | ⟨hk, hold⟩
    · rw [hfresh.origin_form]
      exact Nat.le_of_lt hfresh.younger
    · rw [FreshForm.origin_of_ne hk]
      exact h.origin_le k found hold
  case itself =>
    intro k found hfound hne
    rcases hfresh.node?_of_takeId hfound with ⟨rfl, rfl⟩ | ⟨hk, hold⟩
    · exact hfresh.itself
    · rw [FreshForm.origin_of_ne hk] at hne
      exact h.itself k found hold hne
  case attests =>
    intro k found hfound
    rcases hfresh.node?_of_takeId hfound with ⟨rfl, rfl⟩ | ⟨hk, hold⟩
    · exact hfresh.attests_form h
    · unfold Attests
      rw [FreshForm.origin_of_ne hk, names_mem_append_displays, unnamed_append_displays]
      exact h.attests k found hold
  case distinct =>
    intro k m found other hfound hother hsame hk hm heq
    rw [unnamed_append_displays] at hk hm
    rcases hfresh.node?_of_takeId hfound with ⟨rfl, rfl⟩ | ⟨hkne, hold⟩ <;>
      rcases hfresh.node?_of_takeId hother with ⟨rfl, rfl⟩ | ⟨hmne, hold'⟩
    · rfl
    · rw [hfresh.origin_form] at hk ⊢
      rw [FreshForm.origin_of_ne hmne] at hm ⊢
      exact hfresh.origin_eq h hold' hsame hk hm heq
    · rw [FreshForm.origin_of_ne hkne] at hk ⊢
      rw [hfresh.origin_form] at hm ⊢
      exact (hfresh.origin_eq h hold hsame.symm hm hk heq.symm).symm
    · rw [FreshForm.origin_of_ne hkne] at hk ⊢
      rw [FreshForm.origin_of_ne hmne] at hm ⊢
      exact h.distinct k m found other hold hold' hsame hk hm heq
  case mounted =>
    intro k found mounting hfound hmounting
    rcases hfresh.node?_of_takeId hfound with ⟨rfl, rfl⟩ | ⟨hk, hold⟩
    · have hnone : (shown.takeId source.id).mounting? = none := hfresh.unmounted
      rw [hnone] at hmounting
      cases hmounting
    · refine (h.mounted k found mounting hold hmounting).mono rfl rfl rfl
        fun wrapper other _ hlt horigin hother ↦ ?_
      -- the form is new, so that it is nobody's wrapper yet
      have hne : wrapper ≠ form := by
        rintro rfl
        rw [origin_eq_self hfresh.untouched] at horigin
        exact Nat.ne_of_lt hlt horigin.symm
      refine ⟨by rw [FreshForm.origin_of_ne hne, horigin], other, ?_, rfl, rfl⟩
      rw [node?_takeId, if_neg (Ne.symm hne), hother]
  case toListing =>
    refine h.toListing.of_registries rfl (fun k found hfound ↦ ?_) (fun _ hr ↦ hr) fun _ ↦ rfl
    rcases hfresh.node?_of_takeId hfound with ⟨rfl, rfl⟩ | ⟨-, hold⟩
    · exact ⟨shown, hfresh.live, rfl⟩
    · exact ⟨found, hold, rfl⟩

/-- A node is mounted as what it is displayed as. -/
theorem recordMounting (h : Ledger deeds w) {n form : NodeId} {source : Node}
    (hsource : w.node? n = some source)
    (hdisplayed : w.DisplayedAs deeds n source (if form = n then .itself else .wrapper form))
    (host : HostId) : Ledger deeds (w.recordMounting n host form) := by
  let mounting : Mounting := ⟨host, if form = n then .itself else .wrapper form⟩
  let mounted := w.modifyNode n fun node ↦ { node with mounting? := some mounting }
  suffices hmounted : Ledger deeds mounted from hmounted.frame (.sweep mounted)
  have hcases {k : NodeId} {found : Node} (hfound : mounted.node? k = some found) :
      ∃ node, w.node? k = some node ∧ found.id = node.id ∧ found.kind = node.kind ∧
        found.registry = node.registry ∧
        ((k = n ∧ found.mounting? = some mounting) ∨ found.mounting? = node.mounting?) := by
    rw [node?_modifyNode] at hfound
    split at hfound
    · rename_i heq
      obtain ⟨node, hnode, rfl⟩ := Option.map_eq_some_iff.mp hfound
      exact ⟨node, hnode, rfl, rfl, rfl, .inl ⟨heq.symm, rfl⟩⟩
    · exact ⟨found, hfound, rfl, rfl, rfl, .inr rfl⟩
  have hkept {k : NodeId} {node : Node} (hnode : w.node? k = some node) :
      ∃ found, mounted.node? k = some found ∧ found.id = node.id ∧
        found.registry = node.registry := by
    rw [node?_modifyNode]
    split
    · exact ⟨_, congrArg (Option.map _) hnode, rfl, rfl⟩
    · exact ⟨node, hnode, rfl, rfl⟩
  refine h.of_identities rfl (fun k found hfound ↦ ?_) (fun _ ↦ rfl) (fun _ ↦ rfl) (fun _ ↦ rfl)
    (fun _ ↦ Nat.le_refl _) fun k found other hfound hother ↦ ?_
  · obtain ⟨node, hnode, hid, hkind, hregistry, -⟩ := hcases hfound
    exact ⟨node, hnode, hid, hkind, hregistry⟩
  · obtain ⟨node, hnode, hid, hkind, hregistry, hmounting⟩ := hcases hfound
    have hold : w.DisplayedAs deeds k node other.form := by
      rcases hmounting with ⟨rfl, hmounting⟩ | hmounting
      · obtain rfl := Option.some.inj (hnode.symm.trans hsource)
        obtain rfl := Option.some.inj (hother.symm.trans hmounting)
        exact hdisplayed
      · exact h.mounted k node other hnode (hmounting.symm.trans hother)
    exact hold.mono hid hkind hregistry fun form shown _ _ horigin hshown ↦ ⟨horigin, hkept hshown⟩

/-- A node that is displayed as itself is mounted. -/
theorem display_itself (h : Ledger deeds w) {n : NodeId} {node : Node}
    (hnode : w.node? n = some node) (hkind : node.kind.rendersAsItself = true)
    (links : List (NodeId × NodeId)) (host : HostId) :
    Ledger (deeds ++ [.displays n n])
      (((w.takeId n node.id).recordParents links).recordMounting n host n) := by
  obtain ⟨written, hwritten, hsame⟩ :=
    exists_node?_recordParents links (node?_takeId_self hnode node.id)
  have htaken : Ledger (deeds ++ [.displays n n]) ((w.takeId n node.id).recordParents links) :=
    (h.takeId_self hnode).frame (.recordParents _ links)
  refine htaken.recordMounting hwritten ?_ host
  rw [if_pos rfl]
  show written.kind.rendersAsItself = true
  rw [hsame.kind]
  exact hkind

/-- A node is mounted with the form that was created for it. -/
theorem display_form (h : Ledger deeds w) {n form : NodeId} {source shown : Node}
    (hfresh : FreshForm deeds w n source form shown)
    (links : List (NodeId × NodeId)) (host : HostId) :
    Ledger (deeds ++ [.displays n form])
      (((w.takeId form source.id).recordParents links).recordMounting n host form) := by
  have hne : form ≠ n := Nat.ne_of_gt hfresh.younger
  have hfound : (w.takeId form source.id).node? n = some source := by
    rw [node?_takeId, if_neg hne, hfresh.found]
  obtain ⟨written, hwritten, hsame⟩ := exists_node?_recordParents links hfound
  obtain ⟨other, hother, hsame'⟩ :=
    exists_node?_recordParents links (node?_takeId_self hfresh.live source.id)
  have htaken : Ledger (deeds ++ [.displays n form])
      ((w.takeId form source.id).recordParents links) :=
    (h.takeId_form hfresh).frame (.recordParents _ links)
  refine htaken.recordMounting hwritten ?_ host
  rw [if_neg hne]
  refine ⟨?_, hfresh.younger, hfresh.origin_form, other, hother, ?_, ?_⟩
  · rw [hsame.kind, hfresh.wraps]
  · rw [hsame'.id, hsame.id, Node.id_takeId]
  · rw [hsame'.registry, hsame.registry]
    exact hfresh.registry

end Ledger

end World

end LiveMarkup
