import LiveMarkup.Proofs.World.Revealing
import Mathlib.Order.Lattice.Nat

/-!
What is left when a node was displayed and everything was swept. Of the nodes that there were, those
are left that are still referred to, and of the new ones the forms of the node
(`World.Reveals.node?_sweep`); nodes that only nodes which are gone referred to are gone too
(`World.Reveals.node?_sweep_eq_none`). A node that unfolds has ranks from its nodes down
(`World.Unfolds.exists_height`), so that no circle keeps them alive.
-/

set_option autoImplicit false
set_option relaxedAutoImplicit false

namespace LiveMarkup.World

variable {σ : Type} {w w' v : World σ}

/-- Whatever is referred to is alive, and whatever is alive is referred to; registries list it.
Every world that a client reaches is sound (`World.sound_of_reaches`). -/
structure Sound (w : World σ) : Prop where
  listing : w.Listing
  live : ∀ n, (w.Rooted n ∨ ∃ parent, w.Owns (fun _ ↦ False) parent n) ↔
    ∃ node, w.node? n = some node

/-! ### Heights -/

/-- The nodes of an outline have heights, of which that of the root is the highest. -/
theorem Unfolds.exists_height {root : NodeId} {outline : Outline} (h : w.Unfolds root outline) :
    ∃ height : NodeId → Nat,
      (∀ parent ∈ outline.ids, ∀ child, w.Contains parent child → height child < height parent) ∧
        ∀ n ∈ outline.ids, height n ≤ height root := by
  let depths (n : NodeId) : Set Nat := { depth | ∃ part, w.outlineWithin? depth n = some part }
  let height (n : NodeId) : Nat := sInf (depths n)
  have hstep (parent : NodeId) (hparent : w.Reaches root parent) (child : NodeId)
      (hchild : w.Contains parent child) : height child < height parent := by
    obtain ⟨part, -, depth, hdepth⟩ := h.of_reaches hparent
    obtain ⟨lowest, hlowest⟩ : height parent ∈ depths parent := Nat.sInf_mem ⟨depth, part, hdepth⟩
    obtain ⟨less, hless, below, hbelow, -⟩ := outlineWithin?_step hlowest hchild
    exact Nat.lt_of_le_of_lt (Nat.sInf_le ⟨below, hbelow⟩) hless
  refine ⟨height, fun parent hparent ↦ hstep parent (h.mem_ids_iff.mp hparent), fun n hn ↦ ?_⟩
  -- from the root down, every step lowers the height
  induction h.mem_ids_iff.mp hn with
  | refl => exact Nat.le_refl _
  | @tail parent child hparent hchild ih =>
    have hle := ih (h.mem_ids_iff.mpr hparent)
    exact Nat.le_trans (Nat.le_of_lt (hstep parent hparent child hchild)) hle

/-! ### After a display -/

section Reveals

variable {kept : NodeId → Prop} {registries : RegistryId → Prop} {outline : Outline} {id : NodeId}
  {host : HostId} {form : Nat}

/-- A form is new, unless it is the node itself. -/
theorem Reveals.eq_or_fresh (h : Reveals kept registries outline id host form w w') :
    form = id ∨ w.Fresh w' form := by
  have hnext := h.next
  have hplace := h.place
  split at hplace
  · exact .inl hplace
  · refine .inr ⟨?_, ?_⟩ <;> omega

/-- A node that was displayed owns its form, and otherwise what it owned before. -/
theorem Reveals.owns_of_kept (h : Reveals kept registries outline id host form w w')
    {parent n : NodeId} (hparent : kept parent) (hlive : ∃ owner, w.node? parent = some owner)
    (howns : w'.Owns (fun _ ↦ False) parent n) :
    w.Owns (· = id) parent n ∨ w.Fresh w' n := by
  obtain ⟨before, hbefore⟩ := hlive
  obtain ⟨owner, howner, howned⟩ := howns
  obtain ⟨after, hafter, hmatches, hmounting⟩ := h.nodes parent before hparent hbefore
  obtain rfl : owner = after := Option.some.inj (howner.symm.trans hafter)
  rcases howned with hcontent | ⟨-, hwrapper⟩
  · exact .inl ⟨before, hbefore, .inl (hmatches.content ▸ hcontent)⟩
  by_cases hself : parent = id
  · -- what is the wrapper now is the form
    obtain ⟨node, hnode, hmounted⟩ := h.mounted
    obtain rfl : owner = node := Option.some.inj (howner.symm.trans (hself ▸ hnode))
    rw [Node.wrapper?, hmounted] at hwrapper
    by_cases hitself : form = id
    · rw [if_pos hitself] at hwrapper
      cases hwrapper
    · rw [if_neg hitself] at hwrapper
      obtain rfl := Option.some.inj hwrapper
      exact .inr (h.eq_or_fresh.resolve_left hitself)
  · refine .inl ⟨before, hbefore, .inr ⟨hself, ?_⟩⟩
    rw [Node.wrapper?, ← hmounting hself]
    exact hwrapper

/-- A form owns nodes from below the one that was displayed, and forms. -/
theorem Reveals.owns_of_fresh (h : Reveals kept registries outline id host form w w')
    {parent n : Nat} (hparent : w.Fresh w' parent) (howns : w'.Owns (fun _ ↦ False) parent n) :
    n ∈ outline.inner ∨ w.Fresh w' n := by
  obtain ⟨new, hnew, hisForm⟩ := h.fresh parent hparent
  obtain ⟨owner, howner, howned⟩ := howns
  obtain rfl : owner = new := Option.some.inj (howner.symm.trans hnew)
  rcases howned with hcontent | ⟨-, hwrapper⟩
  · refine (hisForm.content n hcontent).imp_right fun hlater ↦ ⟨hlater.1, ?_⟩
    exact Nat.lt_trans hlater.2 hparent.2
  · rw [Node.wrapper?, hisForm.unmounted] at hwrapper
    cases hwrapper

/-- An older node that is still there owns what it owned before. -/
theorem Reveals.owns_of_past (h : Reveals kept registries outline id host form w w')
    {parent n : Nat} (hparent : parent < w.nodes.next) (hne : parent ≠ id)
    (howns : w'.Owns (fun _ ↦ False) parent n) : w.Owns (fun _ ↦ False) parent n := by
  obtain ⟨owner, howner, howned⟩ := howns
  obtain ⟨before, hbefore, hcontent, hmounting⟩ := h.past parent owner hparent howner
  refine ⟨before, hbefore, ?_⟩
  rw [Node.wrapper?, hmounting hne, hcontent] at howned
  exact howned

section Sweep

variable (h : Reveals kept registries outline id host form w w')
  (hunfolds : w.Unfolds id outline) (hids : ∀ n ∈ outline.ids, kept n)
  (hlive : ∀ n, kept n → ∃ node, w.node? n = some node) (hnodes : v.nodes = w'.nodes)

include h hunfolds hids hnodes

/-- Nodes of which each is a root, or owned by another one already before, are left with the
forms. -/
theorem Reveals.node?_sweep (hroot : v.Rooted id)
    (hkept : ∀ n, kept n → v.Rooted n ∨ ∃ parent, kept parent ∧ w.Owns (· = id) parent n)
    {n : NodeId} (hn : kept n ∨ w.Fresh w' n) : v.sweep.node? n = w'.node? n := by
  have hnode? (n : NodeId) : v.node? n = w'.node? n := congrArg (fun nodes ↦ nodes.get? n) hnodes
  have hforms := h.supports_forms v hunfolds hids hnodes hroot
  have hsupports : v.Supports (fun _ ↦ False) fun n ↦ kept n ∨ w.Fresh w' n := by
    intro n hn
    obtain ⟨hlive, -⟩ := h.supports n hn
    refine ⟨by rwa [hnode?], ?_⟩
    rcases hn with hn | hn
    · refine (hkept n hn).imp_right ?_
      rintro ⟨parent, hparent, owner, howner, howned⟩
      obtain ⟨owner', howner', hmatches, hmounting⟩ := h.nodes parent owner hparent howner
      refine ⟨parent, .inl hparent, owner', (hnode? parent).trans howner', ?_⟩
      rcases howned with hcontent | ⟨hne, hwrapper⟩
      · exact .inl (hmatches.content ▸ hcontent)
      · refine .inr ⟨not_false, ?_⟩
        rw [Node.wrapper?, hmounting hne]
        exact hwrapper
    · obtain ⟨-, hsupport⟩ := hforms n (.inr hn)
      refine hsupport.imp_right ?_
      rintro ⟨parent, hparent, howns⟩
      exact ⟨parent, hparent.imp_left (hids parent), howns⟩
  exact (hsupports.node?_sweep hn).trans (hnode? n)

include hlive

/-- Older nodes that are not kept are gone, if nothing that is kept refers to them and they have
ranks from owner to owned. -/
theorem Reveals.node?_sweep_eq_none (hroots : ∀ n, v.Rooted n → kept n ∨ w.Fresh w' n)
    (howns : ∀ parent n, kept parent → w.Owns (· = id) parent n → kept n) {rank : NodeId → Nat}
    (hrank : ∀ parent n, ¬kept parent → w.Owns (fun _ ↦ False) parent n → rank n < rank parent)
    {n : Nat} (hn : ¬(kept n ∨ w.Fresh w' n)) : v.sweep.node? n = none := by
  suffices hall : v.Loose (fun n ↦ ¬(kept n ∨ w.Fresh w' n)) rank from hall.node?_sweep hn
  refine ⟨fun n hloose hrooted ↦ hloose (hroots n hrooted), fun n parent hloose howner ↦ ?_⟩
  have hlater : w'.Owns (fun _ ↦ False) parent n := by
    obtain ⟨owner, howner, howned⟩ := howner
    exact ⟨owner, (congrArg (fun nodes ↦ nodes.get? parent) hnodes).symm.trans howner, howned⟩
  by_cases hparent : kept parent
  · refine absurd ?_ hloose
    exact (h.owns_of_kept hparent (hlive parent hparent) hlater).imp_left (howns parent n hparent)
  by_cases hfresh : w.Fresh w' parent
  · refine absurd ?_ hloose
    refine (h.owns_of_fresh hfresh hlater).imp_left fun hinner ↦ ?_
    exact hids n (Outline.inner_subset_ids hinner)
  · obtain ⟨owner, howner, howned⟩ := hlater
    have hold : parent < w.nodes.next := by
      by_contra hnew
      exact hfresh ⟨Nat.le_of_not_lt hnew, lt_next_of_node? howner⟩
    have hne : parent ≠ id := fun heq ↦ hparent (heq ▸ hids id hunfolds.mem_ids)
    exact ⟨not_or.mpr ⟨hparent, hfresh⟩,
      hrank parent n hparent (h.owns_of_past hold hne ⟨owner, howner, howned⟩)⟩

end Sweep

end Reveals

end LiveMarkup.World
