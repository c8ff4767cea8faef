import HMailServer.Util.ICalendar.ContentLine

/- What the reader makes of a text: the components of the tree it builds, and the
   invariants that reading line after line keeps. -/
namespace HMailServer.ICalendar
open AnsiString LineParameters

/-! ## Lines have no line breaks -/

theorem notMem_of_mem_splitOn {α : Type} [DecidableEq α] {sep : α} {s piece : List α} (h : piece ∈ s.splitOn sep) :
    sep ∉ piece := by
  induction s generalizing piece with
  | nil =>
    rw [List.splitOn_nil, List.mem_singleton] at h
    simp [h]
  | cons x s ih =>
    rw [List.splitOn_cons_eq_if_modifyHead] at h
    split at h
    · obtain rfl | h := List.mem_cons.1 h
      · simp
      · exact ih h
    · rename_i hx
      cases hs : s.splitOn sep with
      | nil => exact absurd hs (List.splitOn_ne_nil sep s)
      | cons first rest =>
        rw [hs, List.modifyHead_cons] at h
        obtain rfl | h := List.mem_cons.1 h
        · have hne : sep ≠ x := by
            rintro rfl
            simp at hx
          rw [List.mem_cons, not_or]
          exact ⟨hne, ih (by rw [hs]; exact List.mem_cons_self)⟩
        · exact ih (by rw [hs]; exact List.mem_cons_of_mem _ h)

theorem physicalLines_break (text : AnsiString) : ∀ line ∈ physicalLines text, 10 ∉ line := by
  intro line hline
  obtain ⟨piece, hpiece, rfl⟩ := List.mem_map.1 hline
  have hbreak : (10 : UInt8) ∉ piece := by
    split at hpiece
    · exact notMem_of_mem_splitOn (List.mem_of_mem_dropLast hpiece)
    · exact notMem_of_mem_splitOn hpiece
  split
  · exact fun hmem => hbreak (List.mem_of_mem_dropLast hmem)
  · exact hbreak

theorem joinLines_break {current : Option AnsiString} {lines : List AnsiString} (hcurrent : ∀ c ∈ current, 10 ∉ c)
    (hlines : ∀ line ∈ lines, 10 ∉ line) : ∀ line ∈ joinLines current lines, 10 ∉ line := by
  fun_induction joinLines current lines with
  | case1 current =>
    intro line hline
    exact hcurrent line (Option.mem_toList.1 hline)
  | case2 line rest ih =>
    refine ih ?_ fun l hl => hlines l (List.mem_cons_of_mem _ hl)
    rintro c ⟨⟩
    exact hlines _ List.mem_cons_self
  | case3 current rest ih =>
    have hrest := ih (by rintro c ⟨⟩; simp) fun l hl => hlines l (List.mem_cons_of_mem _ hl)
    intro line hline
    obtain rfl | hline := List.mem_cons.1 hline
    · exact hcurrent _ rfl
    · exact hrest line hline
  | case4 current rest c line hc ih =>
    refine ih ?_ fun l hl => hlines l (List.mem_cons_of_mem _ hl)
    rintro d ⟨⟩
    have hfirst := hlines _ List.mem_cons_self
    rw [List.mem_cons, not_or] at hfirst
    rw [List.mem_append, not_or]
    exact ⟨hcurrent _ rfl, hfirst.2⟩
  | case5 current rest c line hc ih =>
    have hrest := ih (by rintro d ⟨⟩; exact hlines _ List.mem_cons_self) fun l hl => hlines l (List.mem_cons_of_mem _ hl)
    intro line hline
    obtain rfl | hline := List.mem_cons.1 hline
    · exact hcurrent _ rfl
    · exact hrest line hline

theorem unfoldLines_break (text : AnsiString) : ∀ line ∈ unfoldLines text, 10 ∉ line :=
  joinLines_break (by simp) (physicalLines_break text)

/-! ## The components of a tree -/

mutual

/-- The components, each with its own properties, in document order. -/
def nodes : ICalComponent → List (AnsiString × List ICalProperty)
  | .mk name properties children => (name, properties) :: childNodes children

def childNodes : List ICalComponent → List (AnsiString × List ICalProperty)
  | [] => []
  | child :: children => nodes child ++ childNodes children

end

mutual

def height : ICalComponent → Nat
  | .mk _ _ children => childHeight children + 1

def childHeight : List ICalComponent → Nat
  | [] => 0
  | child :: children => max (height child) (childHeight children)

end

/-- All properties of a tree. -/
def properties (component : ICalComponent) : List ICalProperty := (nodes component).flatMap Prod.snd

theorem childNodes_append (children children' : List ICalComponent) :
    childNodes (children ++ children') = childNodes children ++ childNodes children' := by
  induction children with
  | nil => rfl
  | cons child children ih => rw [List.cons_append, childNodes, childNodes, ih, List.append_assoc]

theorem childHeight_append (children children' : List ICalComponent) :
    childHeight (children ++ children') = max (childHeight children) (childHeight children') := by
  induction children with
  | nil => simp [childHeight]
  | cons child children ih => rw [List.cons_append, childHeight, childHeight, ih, max_assoc]

theorem name_addChild (component child : ICalComponent) : (component.addChild child).name = component.name := by
  cases component
  rfl

theorem name_addProperty (component : ICalComponent) (property : ICalProperty) :
    (component.addProperty property).name = component.name := by
  cases component
  rfl

theorem nodes_addChild (component child : ICalComponent) :
    nodes (component.addChild child) = nodes component ++ nodes child := by
  obtain ⟨name, ps, children⟩ := component
  rw [ICalComponent.addChild, nodes, nodes, childNodes_append, childNodes, childNodes, List.append_nil]
  rfl

theorem height_addChild (component child : ICalComponent) :
    height (component.addChild child) = max (height component) (height child + 1) := by
  obtain ⟨name, ps, children⟩ := component
  rw [ICalComponent.addChild, height, height, childHeight_append, childHeight, childHeight]
  omega

theorem height_addProperty (component : ICalComponent) (property : ICalProperty) :
    height (component.addProperty property) = height component := by
  obtain ⟨name, ps, children⟩ := component
  rw [ICalComponent.addProperty, height, height]

/-! ## What reading keeps -/

/-- What holds of a component that was read. -/
structure NodeOk (node : AnsiString × List ICalProperty) : Prop where
  name_ne : node.1 ≠ []
  name_upper : makeUpper node.1 = node.1
  name_trim : trim node.1 = node.1
  name_break : 10 ∉ node.1
  properties : ∀ property ∈ node.2, PropertyOk property ∧ property.name ≠ ansi "BEGIN" ∧ property.name ≠ ansi "END"

def Reader.nodes (r : Reader) : List (AnsiString × List ICalProperty) :=
  r.stack.flatMap ICalendar.nodes ++ r.root.toList.flatMap ICalendar.nodes

/-- An open component and those around it leave the depth they may have. -/
def Fits : List ICalComponent → Prop
  | [] => True
  | innermost :: outer => height innermost + outer.length ≤ maxDepth ∧ Fits outer

structure Reader.Ok (r : Reader) : Prop where
  nodes : ∀ node ∈ r.nodes, NodeOk node
  components : r.nodes.length ≤ r.components + 1 ∧ r.components ≤ maxComponents
  propertyCount : (r.nodes.flatMap Prod.snd).length ≤ r.propertyCount ∧ r.propertyCount ≤ maxProperties
  depth : Fits r.stack ∧ ∀ root ∈ r.root, height root ≤ maxDepth
  calendar : (∀ outermost ∈ r.stack.getLast?, outermost.name = ansi "VCALENDAR") ∧
    ∀ root ∈ r.root, root.name = ansi "VCALENDAR"

theorem Reader.Ok.init : Reader.Ok {} where
  nodes := by simp [Reader.nodes]
  components := ⟨Nat.zero_le _, Nat.zero_le _⟩
  propertyCount := ⟨Nat.le_refl _, Nat.zero_le _⟩
  depth := ⟨trivial, by simp⟩
  calendar := ⟨by simp, by simp⟩

/-- The component a property goes to is the first of the nodes. -/
theorem nodes_eq (component : ICalComponent) :
    ∃ own rest, nodes component = (component.name, own) :: rest ∧
      ∀ property, nodes (component.addProperty property) = (component.name, own ++ [property]) :: rest := by
  obtain ⟨name, ps, children⟩ := component
  exact ⟨ps, childNodes children, by rw [nodes]; rfl, fun property => by rw [ICalComponent.addProperty, nodes]; rfl⟩

section

variable {r r' : Reader} (hok : r.Ok)
include hok

theorem readBegin_ok {value : AnsiString} (hvalue : value = makeUpper (trim value)) (hbreak : 10 ∉ value)
    (h : readBegin r value = .ok r') : r'.Ok := by
  have hnode : value ≠ [] → NodeOk (value, []) := by
    intro hne
    refine ⟨hne, ?_, ?_, hbreak, by simp⟩
    · rw [hvalue, makeUpper_makeUpper]
    · show trim value = value
      rw [hvalue]
      exact trim_makeUpper (trim_trim _)
  unfold readBegin at h
  split at h
  · cases h
  rename_i hroot
  have hroot : r.root = none := by simpa using hroot
  split at h
  · cases h
  rename_i hne
  split at h
  · rename_i hstack
    split at h
    · cases h
    rename_i hcalendar
    have hcalendar : value = ansi "VCALENDAR" := by simpa using hcalendar
    cases h
    have hnodes : Reader.nodes { r with stack := [.mk (ansi "VCALENDAR") [] []] } = [(ansi "VCALENDAR", [])] := by
      simp [Reader.nodes, ICalendar.nodes, childNodes, hroot]
    refine ⟨?_, ?_, ?_, ?_, ?_⟩
    · rw [hnodes]
      intro node hmem
      rw [List.mem_singleton.1 hmem, ← hcalendar]
      exact hnode hne
    · rw [hnodes]
      exact ⟨Nat.succ_le_succ (Nat.zero_le _), hok.components.2⟩
    · rw [hnodes]
      exact ⟨Nat.zero_le _, hok.propertyCount.2⟩
    · exact ⟨⟨by simp [height, childHeight, maxDepth], trivial⟩, hok.depth.2⟩
    · exact ⟨by rintro outermost ⟨⟩; rfl, hok.calendar.2⟩
  · rename_i innermost outer hstack
    split at h
    · cases h
    rename_i hdepth
    split at h
    · cases h
    rename_i hcount
    cases h
    have hnodes : Reader.nodes { r with stack := .mk value [] [] :: r.stack, components := r.components + 1 } =
        (value, []) :: r.nodes := by
      simp [Reader.nodes, ICalendar.nodes, childNodes]
    refine ⟨?_, ?_, ?_, ?_, ?_⟩
    · rw [hnodes]
      intro node hmem
      obtain rfl | hmem := List.mem_cons.1 hmem
      · exact hnode hne
      · exact hok.nodes node hmem
    · rw [hnodes]
      exact ⟨Nat.succ_le_succ hok.components.1, by simpa using hcount⟩
    · rw [hnodes]
      exact hok.propertyCount
    · refine ⟨⟨?_, hok.depth.1⟩, hok.depth.2⟩
      simp only [height, childHeight]
      omega
    · refine ⟨?_, hok.calendar.2⟩
      rw [hstack, List.getLast?_cons_cons, ← hstack]
      exact hok.calendar.1

theorem readEnd_ok {value : AnsiString} (h : readEnd r value = .ok r') : r'.Ok := by
  obtain ⟨hnodes, hcomponents, hproperties, hdepth, hcalendar⟩ := hok
  unfold Reader.nodes at hnodes hcomponents hproperties
  unfold readEnd at h
  split at h
  · cases h
  rename_i innermost outer hstack
  rw [hstack] at hnodes hcomponents hproperties hdepth hcalendar
  split at h
  · cases h
  split at h
  · cases h
    simp only [List.flatMap_cons, List.flatMap_nil, List.append_nil, List.length_append, List.flatMap_append,
      List.mem_append] at hnodes hcomponents hproperties
    refine ⟨?_, ?_, ?_, ?_, ?_⟩ <;> simp only [Reader.nodes, List.flatMap_nil, List.nil_append, Option.toList_some,
      List.flatMap_cons, List.append_nil]
    · exact fun node hmem => hnodes node (.inl hmem)
    · exact ⟨by omega, hcomponents.2⟩
    · exact ⟨by omega, hproperties.2⟩
    · refine ⟨trivial, ?_⟩
      rintro root ⟨⟩
      exact Nat.le_of_add_right_le hdepth.1.1
    · refine ⟨by simp, ?_⟩
      rintro root ⟨⟩
      exact hcalendar.1 _ rfl
  · rename_i parent outer
    cases h
    simp only [List.flatMap_cons, List.length_append, List.flatMap_append, List.mem_append] at hnodes hcomponents hproperties
    refine ⟨?_, ?_, ?_, ?_, ?_⟩ <;> simp only [Reader.nodes, List.flatMap_cons, nodes_addChild, List.length_append,
      List.flatMap_append, List.mem_append]
    · rintro node (((hmem | hmem) | hmem) | hmem)
      · exact hnodes node (.inl (.inr (.inl hmem)))
      · exact hnodes node (.inl (.inl hmem))
      · exact hnodes node (.inl (.inr (.inr hmem)))
      · exact hnodes node (.inr hmem)
    · exact ⟨by omega, hcomponents.2⟩
    · exact ⟨by omega, hproperties.2⟩
    · obtain ⟨⟨hinner, hparent, houter⟩, hroot⟩ := hdepth
      refine ⟨⟨?_, houter⟩, hroot⟩
      rw [height_addChild]
      rw [List.length_cons] at hinner
      omega
    · refine ⟨?_, hcalendar.2⟩
      have houtermost := hcalendar.1
      rw [List.getLast?_cons_cons] at houtermost
      cases outer with
      | nil =>
        rintro outermost ⟨⟩
        exact (name_addChild parent innermost).trans (houtermost parent rfl)
      | cons next outer =>
        rw [List.getLast?_cons_cons] at houtermost ⊢
        exact houtermost

theorem readProperty_ok {property : ICalProperty} (hproperty : PropertyOk property)
    (hbegin : property.name ≠ ansi "BEGIN") (hend : property.name ≠ ansi "END")
    (h : readProperty r property = .ok r') : r'.Ok := by
  obtain ⟨hnodes, hcomponents, hproperties, hdepth, hcalendar⟩ := hok
  unfold Reader.nodes at hnodes hcomponents hproperties
  unfold readProperty at h
  split at h
  · cases h
  rename_i innermost outer hstack
  rw [hstack] at hnodes hcomponents hproperties hdepth hcalendar
  split at h
  · cases h
  rename_i hcount
  cases h
  obtain ⟨own, rest, hinner, hadd⟩ := nodes_eq innermost
  simp only [List.flatMap_cons, List.length_append, List.flatMap_append, List.mem_append, hinner, List.length_cons,
    List.mem_cons] at hnodes hcomponents hproperties
  refine ⟨?_, ?_, ?_, ?_, ?_⟩ <;> simp only [Reader.nodes, List.flatMap_cons, hadd, List.length_append,
    List.flatMap_append, List.mem_append, List.length_cons, List.mem_cons, List.length_nil]
  · rintro node (((rfl | hmem) | hmem) | hmem)
    · obtain ⟨hne, hupper, htrim, hbreak, hown⟩ := hnodes _ (.inl (.inl (.inl rfl)))
      refine ⟨hne, hupper, htrim, hbreak, ?_⟩
      intro p hp
      obtain hp | hp := List.mem_append.1 hp
      · exact hown p hp
      · rw [List.mem_singleton.1 hp]
        exact ⟨hproperty, hbegin, hend⟩
    · exact hnodes node (.inl (.inl (.inr hmem)))
    · exact hnodes node (.inl (.inr hmem))
    · exact hnodes node (.inr hmem)
  · exact hcomponents
  · exact ⟨by omega, by omega⟩
  · refine ⟨⟨?_, hdepth.1.2⟩, hdepth.2⟩
    rw [height_addProperty]
    exact hdepth.1.1
  · refine ⟨?_, hcalendar.2⟩
    have houtermost := hcalendar.1
    cases outer with
    | nil =>
      rintro outermost ⟨⟩
      exact (name_addProperty innermost property).trans (houtermost innermost rfl)
    | cons next outer =>
      rw [List.getLast?_cons_cons] at houtermost ⊢
      exact houtermost

theorem readLine_ok {line : AnsiString} (hbreak : 10 ∉ line) (h : readLine r line = .ok r') : r'.Ok := by
  unfold readLine at h
  split at h
  · cases h
    exact hok
  split at h
  · cases h
  rename_i property hread
  have hproperty := parseContentLine_ok hread hbreak
  dsimp only at h
  split at h
  · refine readBegin_ok hok ?_ ?_ h
    · rw [trim_makeUpper (trim_trim _), makeUpper_makeUpper]
    · rw [mem_makeUpper toUpper_break]
      exact fun hmem => hproperty.value_break (trim_subset _ hmem)
  rename_i hbegin
  split at h
  · exact readEnd_ok hok h
  · rename_i hend
    exact readProperty_ok hok hproperty hbegin hend h

end

theorem readLines_ok {lines : List AnsiString} (hlines : ∀ line ∈ lines, 10 ∉ line) {r r' : Reader} (hok : r.Ok)
    (h : readLines r lines = .ok r') : r'.Ok := by
  induction lines generalizing r with
  | nil =>
    cases h
    exact hok
  | cons line lines ih =>
    rw [readLines] at h
    split at h
    · cases h
    · rename_i next hnext
      exact ih (fun l hl => hlines l (List.mem_cons_of_mem _ hl)) (readLine_ok hok (hlines _ List.mem_cons_self) hnext) h

/-- What holds of a tree that was read. -/
structure TreeOk (root : ICalComponent) : Prop where
  nodes : ∀ node ∈ nodes root, NodeOk node
  components : (ICalendar.nodes root).length ≤ maxComponents + 1
  propertyCount : (properties root).length ≤ maxProperties
  depth : height root ≤ maxDepth
  calendar : root.name = ansi "VCALENDAR"

theorem parse_ok {text : AnsiString} {root : ICalComponent} (h : parse text = .ok root) : TreeOk root := by
  unfold parse at h
  split at h
  · cases h
  rename_i r hread
  have hok := readLines_ok (unfoldLines_break text) .init hread
  unfold finishReading at h
  split at h
  · rename_i root' _ hroot
    cases h
    obtain ⟨hnodes, hcomponents, hproperties, hdepth, hcalendar⟩ := hok
    unfold Reader.nodes at hnodes hcomponents hproperties
    rw [hroot] at hnodes hcomponents hproperties hdepth hcalendar
    simp only [Option.toList_some, List.flatMap_cons, List.flatMap_nil, List.append_nil, List.length_append,
      List.flatMap_append, List.mem_append] at hnodes hcomponents hproperties
    refine ⟨fun node hmem => hnodes node (.inr hmem), by omega, ?_, hdepth.2 _ rfl, hcalendar.2 _ rfl⟩
    unfold properties
    omega
  · cases h
  · cases h

end HMailServer.ICalendar
