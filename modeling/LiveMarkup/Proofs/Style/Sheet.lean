import LiveMarkup.Style.StyleSheet
import Mathlib.Data.List.Infix

/-!
What the text of a style sheet tells of its rules. Rules are printed one after the other and
without escapes, so that a part of a rule is told from the rest only by the mark behind it: an id
by ` {`, a property by `:`, a value by `;`, the declarations of a rule by `}` where a property
would begin. Text without a mark that stands in front of it is determined, if the mark cannot
overlap itself (`append_mark_inj`); so are items in a row, if each is told from what follows it and
none looks like the end of the row (`flatMap_append_inj`). Rules in which no part contains its mark
are therefore determined by the text of the sheet (`StyleSheet.addAll_append_and_inj`).
-/

set_option autoImplicit false
set_option relaxedAutoImplicit false

namespace LiveMarkup

/-! ### Marks and rows -/

/-- A mark that cannot overlap itself: what is both at its front and at its end is nothing of it or
all of it. -/
def IsUnbordered (mark : List Char) : Prop :=
  ∀ tail ∈ mark.tails, tail <+: mark → tail = [] ∨ tail = mark

instance : DecidablePred IsUnbordered := fun mark ↦
  inferInstanceAs (Decidable (∀ tail ∈ mark.tails, tail <+: mark → tail = [] ∨ tail = mark))

/-- A text that ends where a mark begins is nothing, if the mark stands at its front as well and
does not occur in it. -/
theorem IsUnbordered.eq_nil {mark s u v : List Char} (hmark : IsUnbordered mark)
    (hs : ¬mark <:+: s) (h : mark ++ u = s ++ (mark ++ v)) : s = [] := by
  rcases List.append_eq_append_iff.mp h with ⟨rest, rfl, -⟩ | ⟨tail, hsplit, htail⟩
  · exact absurd (List.prefix_append mark rest).isInfix hs
  -- the mark in front reaches into the one behind, so that its tail is at its front as well
  · have hsuffix : tail ∈ mark.tails := (List.mem_tails _ _).mpr ⟨s, hsplit.symm⟩
    have hfront : tail <+: mark :=
      List.prefix_of_prefix_length_le ⟨u, htail.symm⟩ (List.prefix_append mark v)
        (by rw [hsplit, List.length_append]; exact Nat.le_add_left _ _)
    rcases hmark tail hsuffix hfront with rfl | rfl
    · rw [List.append_nil] at hsplit
      exact absurd (hsplit ▸ List.infix_rfl) hs
    · exact List.self_eq_append_left.mp hsplit

/-- A text without a mark is told from the mark behind it and all that follows. -/
theorem append_mark_inj {mark s t u v : List Char} (hmark : IsUnbordered mark)
    (hs : ¬mark <:+: s) (ht : ¬mark <:+: t) (h : s ++ (mark ++ u) = t ++ (mark ++ v)) :
    s = t ∧ u = v := by
  obtain rfl : s = t := by
    rcases List.append_eq_append_iff.mp h with ⟨rest, rfl, hrest⟩ | ⟨rest, rfl, hrest⟩
    · have hnone : ¬mark <:+: rest := fun hin ↦ ht (hin.trans (List.suffix_append s rest).isInfix)
      rw [hmark.eq_nil hnone hrest, List.append_nil]
    · have hnone : ¬mark <:+: rest := fun hin ↦ hs (hin.trans (List.suffix_append t rest).isInfix)
      rw [hmark.eq_nil hnone hrest, List.append_nil]
  exact ⟨rfl, List.append_cancel_left (List.append_cancel_left h)⟩

/-- Items in a row are told from what ends the row, if each is told from what follows it and none
looks like an end. -/
theorem flatMap_append_inj {α : Type} {write : α → List Char} {Legible : α → Prop}
    (IsEnd : List Char → Prop)
    (hitem : ∀ {a b u v}, Legible a → Legible b → write a ++ u = write b ++ v → a = b ∧ u = v)
    (hend : ∀ {a u}, Legible a → ¬IsEnd (write a ++ u)) {u v : List Char} (hu : IsEnd u)
    (hv : IsEnd v) {row other : List α} (hrow : ∀ a ∈ row, Legible a)
    (hother : ∀ a ∈ other, Legible a) (h : row.flatMap write ++ u = other.flatMap write ++ v) :
    row = other ∧ u = v := by
  -- a row that is over before the other would have to go on like an end
  induction row generalizing other with
  | nil =>
    cases other with
    | nil => exact ⟨rfl, h⟩
    | cons b other =>
      rw [List.flatMap_nil, List.nil_append, List.flatMap_cons, List.append_assoc] at h
      exact absurd (h ▸ hu) (hend (hother b List.mem_cons_self))
  | cons a row ih =>
    rw [List.flatMap_cons, List.append_assoc] at h
    cases other with
    | nil =>
      rw [List.flatMap_nil, List.nil_append] at h
      exact absurd (h ▸ hv) (hend (hrow a List.mem_cons_self))
    | cons b other =>
      rw [List.flatMap_cons, List.append_assoc] at h
      obtain ⟨rfl, hrest⟩ := hitem (hrow a List.mem_cons_self) (hother b List.mem_cons_self) h
      obtain ⟨rfl, hends⟩ := ih (fun a ha ↦ hrow a (List.mem_cons_of_mem _ ha))
        (fun a ha ↦ hother a (List.mem_cons_of_mem _ ha)) hrest
      exact ⟨rfl, hends⟩

/-! ### Declarations -/

namespace Declaration

/-- No part of the declaration contains the mark behind it, and the property has nothing of the end
of a rule. Values may contain colons and braces, and every part may be empty. -/
structure IsLegible (declaration : Declaration) : Prop where
  colon : ':' ∉ declaration.property.toList
  brace : '\x7d' ∉ declaration.property.toList
  semicolon : ';' ∉ declaration.value.toList

instance : DecidablePred IsLegible := fun declaration ↦
  decidable_of_iff (':' ∉ declaration.property.toList ∧ '\x7d' ∉ declaration.property.toList ∧
      ';' ∉ declaration.value.toList)
    ⟨fun h ↦ ⟨h.1, h.2.1, h.2.2⟩, fun h ↦ ⟨h.colon, h.brace, h.semicolon⟩⟩

theorem toList_print (declaration : Declaration) (rest : List Char) :
    declaration.print.toList ++ rest = declaration.property.toList ++
      ([':'] ++ (declaration.value.toList ++ ([';'] ++ rest))) := by
  simp [print, String.toList_append]

theorem toList_printAll (declarations : List Declaration) :
    (printAll declarations).toList = declarations.flatMap fun d ↦ d.print.toList := by
  induction declarations with
  | nil => rfl
  | cons declaration rest ih => rw [printAll, String.toList_append, ih, List.flatMap_cons]

theorem IsLegible.print_append_inj {declaration other : Declaration} {u v : List Char}
    (hlegible : declaration.IsLegible) (hother : other.IsLegible)
    (h : declaration.print.toList ++ u = other.print.toList ++ v) :
    declaration = other ∧ u = v := by
  have hnot {c : Char} {s : List Char} (hc : c ∉ s) : ¬[c] <:+: s :=
    mt (List.singleton_infix_iff c s).mp hc
  rw [toList_print, toList_print] at h
  obtain ⟨hproperty, hbehind⟩ :=
    append_mark_inj (by decide) (hnot hlegible.colon) (hnot hother.colon) h
  obtain ⟨hvalue, hrest⟩ :=
    append_mark_inj (by decide) (hnot hlegible.semicolon) (hnot hother.semicolon) hbehind
  cases declaration
  cases other
  have hproperty' := String.toList_inj.mp hproperty
  have hvalue' := String.toList_inj.mp hvalue
  exact ⟨congrArg₂ Declaration.mk hproperty' hvalue', hrest⟩

/-- A declaration does not begin like the end of a rule, its property being empty or not. -/
theorem IsLegible.head?_print_ne {declaration : Declaration} (hlegible : declaration.IsLegible)
    (rest : List Char) : (declaration.print.toList ++ rest).head? ≠ some '\x7d' := by
  rw [toList_print]
  cases hproperty : declaration.property.toList with
  | nil => exact nofun
  | cons c property =>
    intro hc
    obtain rfl : c = '\x7d' := Option.some.inj hc
    exact hlegible.brace (hproperty ▸ List.mem_cons_self)

end Declaration

theorem StyleMap.declarations_injective : Function.Injective StyleMap.declarations := by
  rintro ⟨entries, _⟩ ⟨others, _⟩ h
  have hentry : Function.Injective fun e : String × String ↦ (⟨e.1, e.2⟩ : Declaration) := by
    rintro ⟨property, value⟩ ⟨property', value'⟩ heq
    cases heq
    rfl
  obtain rfl : entries = others := List.map_injective_iff.mpr hentry h
  rfl

/-! ### Rules -/

namespace StyleRule

/-- The rule that is added for an id and a style. -/
def ofRequest (request : String × StyleMap) : StyleRule := ⟨request.1, request.2.declarations⟩

/-- Rules in their printed form. -/
def printAll : List StyleRule → String
  | [] => ""
  | rule :: rest => rule.print ++ printAll rest

/-- The id does not contain the mark behind it, and every declaration is legible. Ids may contain
braces and hashes, and there may be no declaration. -/
structure IsLegible (rule : StyleRule) : Prop where
  id : ¬[' ', '\x7b'] <:+: rule.id.toList
  declarations : ∀ declaration ∈ rule.declarations, declaration.IsLegible

instance : DecidablePred IsLegible := fun rule ↦
  decidable_of_iff (¬[' ', '\x7b'] <:+: rule.id.toList ∧
      ∀ declaration ∈ rule.declarations, declaration.IsLegible)
    ⟨fun h ↦ ⟨h.1, h.2⟩, fun h ↦ ⟨h.id, h.declarations⟩⟩

theorem ofRequest_injective : Function.Injective ofRequest := by
  intro request other h
  obtain ⟨hid, hdeclarations⟩ := StyleRule.mk.inj h
  exact Prod.ext hid (StyleMap.declarations_injective hdeclarations)

theorem toList_print (rule : StyleRule) (rest : List Char) :
    rule.print.toList ++ rest = '#' :: (rule.id.toList ++ ([' ', '\x7b'] ++
      (rule.declarations.flatMap (fun d ↦ d.print.toList) ++ '\x7d' :: rest))) := by
  simp [print, String.toList_append, Declaration.toList_printAll]

theorem toList_printAll (rules : List StyleRule) :
    (printAll rules).toList = rules.flatMap fun rule ↦ rule.print.toList := by
  induction rules with
  | nil => rfl
  | cons rule rest ih => rw [printAll, String.toList_append, ih, List.flatMap_cons]

theorem IsLegible.print_append_inj {rule other : StyleRule} {u v : List Char}
    (hlegible : rule.IsLegible) (hother : other.IsLegible)
    (h : rule.print.toList ++ u = other.print.toList ++ v) : rule = other ∧ u = v := by
  rw [toList_print, toList_print] at h
  obtain ⟨hid, hbody⟩ :=
    append_mark_inj (by decide) hlegible.id hother.id (List.tail_eq_of_cons_eq h)
  obtain ⟨hdeclarations, hend⟩ :=
    flatMap_append_inj (fun rest ↦ rest.head? = some '\x7d')
      Declaration.IsLegible.print_append_inj (fun hd ↦ hd.head?_print_ne _) rfl rfl
      hlegible.declarations hother.declarations hbody
  cases rule
  cases other
  exact ⟨congrArg₂ StyleRule.mk (String.toList_inj.mp hid) hdeclarations,
    List.tail_eq_of_cons_eq hend⟩

theorem printAll_inj {rules others : List StyleRule} (hrules : ∀ rule ∈ rules, rule.IsLegible)
    (hothers : ∀ rule ∈ others, rule.IsLegible) (h : printAll rules = printAll others) :
    rules = others := by
  have hchars := congrArg String.toList h
  rw [toList_printAll, toList_printAll] at hchars
  refine (flatMap_append_inj (· = []) IsLegible.print_append_inj ?_ rfl rfl hrules
    hothers (congrArg (· ++ []) hchars)).1
  intro rule rest _ hnil
  rw [toList_print] at hnil
  cases hnil

end StyleRule

/-! ### Sheets -/

namespace StyleSheet

/-- Adds rules one after the other. -/
def addAll (sheet : StyleSheet) (requests : List (String × StyleMap)) : StyleSheet :=
  requests.foldl (fun sheet request ↦ sheet.addRule request.1 request.2) sheet

theorem length_addAll (sheet : StyleSheet) (requests : List (String × StyleMap)) :
    (sheet.addAll requests).length = sheet.length + requests.length := by
  induction requests generalizing sheet with
  | nil => rfl
  | cons request requests ih =>
    refine (ih (sheet.addRule request.1 request.2)).trans ?_
    exact Nat.add_right_comm sheet.length 1 requests.length

/-- The text is only ever extended at its end, by the rules that are added. -/
theorem text_addAll (sheet : StyleSheet) (requests : List (String × StyleMap)) :
    (sheet.addAll requests).text =
      sheet.text ++ StyleRule.printAll (requests.map StyleRule.ofRequest) := by
  induction requests generalizing sheet with
  | nil => exact String.append_empty.symm
  | cons request requests ih =>
    refine (ih (sheet.addRule request.1 request.2)).trans ?_
    rw [addRule, String.append_assoc]
    rfl

/-- A sheet counts the rules that are added to it, and more of them extend its text at the end. Two
sequences of legible rules with the same text are the same: the same ids in the same order, each
with the same declarations in the same order, rules without declarations and further rules for an
id included. -/
theorem addAll_append_and_inj (requests : List (String × StyleMap)) :
    let sheet := ({} : StyleSheet).addAll requests
    sheet.length = requests.length ∧
      (∀ more, (({} : StyleSheet).addAll (requests ++ more)).text =
        sheet.text ++ StyleRule.printAll (more.map StyleRule.ofRequest)) ∧
      ∀ others : List (String × StyleMap),
        (∀ request ∈ requests, (StyleRule.ofRequest request).IsLegible) →
        (∀ request ∈ others, (StyleRule.ofRequest request).IsLegible) →
        sheet.text = (({} : StyleSheet).addAll others).text → requests = others := by
  intro sheet
  refine ⟨(length_addAll {} requests).trans (Nat.zero_add _), fun more ↦ ?_,
    fun others hrequests hothers htext ↦ ?_⟩
  · rw [← text_addAll]
    exact congrArg text List.foldl_append
  · have hlegible {requests : List (String × StyleMap)}
        (h : ∀ request ∈ requests, (StyleRule.ofRequest request).IsLegible) :
        ∀ rule ∈ requests.map StyleRule.ofRequest, rule.IsLegible := List.forall_mem_map.mpr h
    rw [text_addAll, text_addAll, String.empty_append, String.empty_append] at htext
    exact List.map_injective_iff.mpr StyleRule.ofRequest_injective
      (StyleRule.printAll_inj (hlegible hrequests) (hlegible hothers) htext)

/-- A declaration that is overwritten keeps its place, so that two styles made in different ways are
printed alike: one of their properties is empty, and its value holds a colon and a hash. A rule
without declarations for the same id follows, and one whose id holds a brace and ends in a blank. -/
theorem addAll_append_and_inj_overwritten :
    let requests : List (String × StyleMap) :=
      [("v-1", .ofList [("color", "red"), ("", "a:#b"), ("color", "blue")]), ("v-1", .empty),
        ("#\x7b ", .ofList [("margin", "")])]
    let others : List (String × StyleMap) :=
      [("v-1", .ofList [("color", "blue"), ("", "a:#b")]), ("v-1", .empty),
        ("#\x7b ", .ofList [("margin", "0"), ("margin", "")])]
    let sheet := ({} : StyleSheet).addAll requests
    (∀ request ∈ requests, (StyleRule.ofRequest request).IsLegible) ∧
      (∀ request ∈ others, (StyleRule.ofRequest request).IsLegible) ∧
      sheet.text = "#v-1 \x7bcolor:blue;:a:#b;\x7d#v-1 \x7b\x7d##\x7b  \x7bmargin:;\x7d" ∧
      sheet.text = (({} : StyleSheet).addAll others).text ∧ sheet.length = 3 ∧
      requests = others := by
  intro requests others sheet
  have hrequests : ∀ request ∈ requests, (StyleRule.ofRequest request).IsLegible := by
    decide +kernel
  have hothers : ∀ request ∈ others, (StyleRule.ofRequest request).IsLegible := by
    decide +kernel
  have htext : sheet.text = (({} : StyleSheet).addAll others).text := by decide +kernel
  obtain ⟨hlength, -, hinj⟩ := addAll_append_and_inj requests
  exact ⟨hrequests, hothers, by decide +kernel, htext, hlength,
    hinj others hrequests hothers htext⟩

-- a property that holds the end of a rule is printed like a rule of its own
example :
    (({} : StyleSheet).addAll [("a", .ofList [("\x7d#b \x7bcolor", "red")])]).text =
      (({} : StyleSheet).addAll [("a", .empty), ("b", .ofList [("color", "red")])]).text := by
  decide +kernel

end StyleSheet

end LiveMarkup
