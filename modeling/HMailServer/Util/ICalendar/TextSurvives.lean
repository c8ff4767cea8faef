import HMailServer.Util.ICalendar.Tree
import HMailServer.Util.ICalendar.Folding
import HMailServer.Lib.Byte

/- A calendar text read, written and read again. The lines written are read as
   they were meant, so that the tree comes back as far as its content lines do. -/
namespace HMailServer.ICalendar
open AnsiString QuotedSplit LineParameters

/-! ## The lines of a tree -/

mutual

/-- The content lines of a tree; the first component says whether it is folded. -/
def entries : ICalComponent → List (Bool × AnsiString)
  | .mk name properties children =>
    (false, ansi "BEGIN:" ++ name) :: (properties.map fun property => (true, propertyLine property)) ++
      childEntries children ++ [(false, ansi "END:" ++ name)]

def childEntries : List ICalComponent → List (Bool × AnsiString)
  | [] => []
  | child :: children => entries child ++ childEntries children

end

/-- The physical lines of a content line. -/
def writtenLines (entry : Bool × AnsiString) : List AnsiString := if entry.1 then foldedLines entry.2 else [entry.2]

/-- Lines with their line breaks. -/
def linesText (lines : List AnsiString) : AnsiString := lines.flatMap (· ++ crlf)

theorem linesText_append (lines lines' : List AnsiString) : linesText (lines ++ lines') = linesText lines ++ linesText lines' :=
  List.flatMap_append

mutual

theorem serializeInto_eq : ∀ (component : ICalComponent) (depth : Nat), (∀ node ∈ nodes component, NodeOk node) →
    height component + depth ≤ maxDepth + 1 →
    serializeInto component depth = linesText ((entries component).flatMap writtenLines)
  | .mk name properties children, depth, hnodes, hdepth => by
    rw [nodes] at hnodes
    rw [height] at hdepth
    have hname := (hnodes _ List.mem_cons_self).name_upper
    have hchildren := serializeChildren_eq children (depth + 1) (fun node hmem => hnodes node (List.mem_cons_of_mem _ hmem))
      (by omega)
    have hproperties : (properties.flatMap fun property => fold (propertyLine property) ++ crlf) =
        linesText ((properties.map fun property => (true, propertyLine property)).flatMap writtenLines) := by
      rw [List.flatMap_map, linesText, List.flatMap_assoc]
      refine List.flatMap_congr fun property _ => ?_
      exact fold_eq (propertyLine property)
    rw [serializeInto, if_neg (by omega), hname, hproperties, hchildren, entries]
    simp [linesText, writtenLines]

theorem serializeChildren_eq : ∀ (children : List ICalComponent) (depth : Nat),
    (∀ node ∈ childNodes children, NodeOk node) → childHeight children + depth ≤ maxDepth + 1 →
    serializeChildren children depth = linesText ((childEntries children).flatMap writtenLines)
  | [], depth, _, _ => by rw [serializeChildren, childEntries]; rfl
  | child :: children, depth, hnodes, hdepth => by
    rw [childNodes] at hnodes
    rw [childHeight] at hdepth
    rw [serializeChildren, childEntries, List.flatMap_append, linesText_append,
      serializeInto_eq child depth (fun node hmem => hnodes node (List.mem_append_left _ hmem)) (by omega),
      serializeChildren_eq children depth (fun node hmem => hnodes node (List.mem_append_right _ hmem)) (by omega)]

end

/-! ## Reading the lines of a tree -/

theorem readLines_append {lines lines' : List AnsiString} {r s : Reader} :
    readLines r (lines ++ lines') = .ok s ↔ ∃ t, readLines r lines = .ok t ∧ readLines t lines' = .ok s := by
  induction lines generalizing r with
  | nil => simp [readLines]
  | cons line lines ih =>
    rw [List.cons_append, readLines, readLines]
    cases readLine r line with
    | error problem => simp
    | ok t => exact ih

theorem readLines_cons {line : AnsiString} {lines : List AnsiString} {r s : Reader} :
    readLines r (line :: lines) = .ok s ↔ ∃ t, readLine r line = .ok t ∧ readLines t lines = .ok s := by
  rw [readLines]
  cases readLine r line with
  | error problem => simp
  | ok t => simp

/-- A line of a name, a colon and a value. -/
theorem readLine_plain {name : AnsiString} (hne : name ≠ []) (hname : ∀ c ∈ name, isNameCharacter c = true)
    (value : AnsiString) :
    trim (name ++ 58 :: value) ≠ [] ∧ parseContentLine (name ++ 58 :: value) = some ⟨name, value, []⟩ := by
  obtain ⟨hencl, hclosed⟩ := enclosed_name hname
  refine ⟨List.ne_nil_of_mem (mem_trim (c := 58) (by simp) (by decide)), ?_⟩
  have hcolon : Enclosed 34 58 false name := enclosed_of_notMem false (notMem_name hname).2.1
  have hcut : cutUnquoted 34 58 false (name ++ 58 :: value) = some (name ++ [], value) := by
    rw [cutUnquoted_append (by decide) value hcolon hclosed, List.append_nil]
  have hsplit : splitUnquoted 34 59 false (name ++ []) = [name] := by
    rw [List.append_nil, splitUnquoted_enclosed hencl]
  rw [parseContentLine_cut hname hne hcut hsplit]
  rfl

theorem readLine_begin {name : AnsiString} {own : List ICalProperty} (hok : NodeOk (name, own)) (r : Reader) :
    readLine r (ansi "BEGIN:" ++ name) = readBegin r name := by
  obtain ⟨htrim, hparse⟩ := @readLine_plain (ansi "BEGIN") (by decide) (by decide +kernel) name
  have hupper : makeUpper name = name := hok.name_upper
  have hname : trim name = name := hok.name_trim
  have hline : ansi "BEGIN:" ++ name = ansi "BEGIN" ++ 58 :: name := by
    rw [show ansi "BEGIN:" = ansi "BEGIN" ++ [58] by decide, List.append_assoc]
    rfl
  rw [readLine, hline, if_neg htrim, hparse]
  dsimp only
  rw [if_pos rfl, hname, hupper]

theorem readLine_end {name : AnsiString} {own : List ICalProperty} (hok : NodeOk (name, own)) (r : Reader) :
    readLine r (ansi "END:" ++ name) = readEnd r name := by
  obtain ⟨htrim, hparse⟩ := @readLine_plain (ansi "END") (by decide) (by decide +kernel) name
  have hupper : makeUpper name = name := hok.name_upper
  have hname : trim name = name := hok.name_trim
  have hline : ansi "END:" ++ name = ansi "END" ++ 58 :: name := by
    rw [show ansi "END:" = ansi "END" ++ [58] by decide, List.append_assoc]
    rfl
  rw [readLine, hline, if_neg htrim, hparse]
  dsimp only
  rw [if_neg (by decide), if_pos rfl, hname, hupper]

/-- A property's line is read as some property of its name, or not at all. -/
theorem readLine_property {property : ICalProperty} (hok : PropertyOk property) (hbegin : property.name ≠ ansi "BEGIN")
    (hend : property.name ≠ ansi "END") {r s : Reader} :
    readLine r (propertyLine property) = .ok s ↔
      ∃ property', parseContentLine (propertyLine property) = some property' ∧ readProperty r property' = .ok s := by
  have htrim : trim (propertyLine property) ≠ [] := by
    refine List.ne_nil_of_mem (mem_trim (c := 58) ?_ (by decide))
    rw [propertyLine_eq]
    simp
  rw [readLine, if_neg htrim]
  cases hparse : parseContentLine (propertyLine property) with
  | none => simp
  | some property' =>
    have hname := parseContentLine_name hok hparse
    dsimp only
    rw [hname, if_neg hbegin, if_neg hend]
    simp

/-! ## The tree read again -/

def rereadProperty (property : ICalProperty) : Option ICalProperty := parseContentLine (propertyLine property)

mutual

/-- The tree its lines are read as. -/
def reread : ICalComponent → Option ICalComponent
  | .mk name properties children =>
    (properties.mapM rereadProperty).bind fun properties' =>
      (rereadChildren children).map fun children' => .mk name properties' children'

def rereadChildren : List ICalComponent → Option (List ICalComponent)
  | [] => some []
  | child :: children =>
    (reread child).bind fun child' => (rereadChildren children).map fun children' => child' :: children'

end

theorem foldl_addProperty (properties properties' : List ICalProperty) (name : AnsiString)
    (children : List ICalComponent) :
    properties'.foldl ICalComponent.addProperty (.mk name properties children) =
      .mk name (properties ++ properties') children := by
  induction properties' generalizing properties with
  | nil => rw [List.append_nil, List.foldl_nil]
  | cons property properties' ih => rw [List.foldl_cons, ICalComponent.addProperty, ih, List.append_assoc]; rfl

theorem foldl_addChild (name : AnsiString) (properties : List ICalProperty) (children children' : List ICalComponent) :
    children'.foldl ICalComponent.addChild (.mk name properties children) =
      .mk name properties (children ++ children') := by
  induction children' generalizing children with
  | nil => rw [List.append_nil, List.foldl_nil]
  | cons child children' ih => rw [List.foldl_cons, ICalComponent.addChild, ih, List.append_assoc]; rfl

/-- The properties of a component are read one after the other. -/
theorem readLines_properties {properties : List ICalProperty}
    (hok : ∀ p ∈ properties, PropertyOk p ∧ p.name ≠ ansi "BEGIN" ∧ p.name ≠ ansi "END") {r s : Reader}
    {innermost : ICalComponent} {outer : List ICalComponent} (hstack : r.stack = innermost :: outer)
    (hcount : r.propertyCount + properties.length ≤ maxProperties) :
    readLines r (properties.map propertyLine) = .ok s ↔
      ∃ properties', properties.mapM rereadProperty = some properties' ∧
        s = { r with stack := properties'.foldl ICalComponent.addProperty innermost :: outer,
                     propertyCount := r.propertyCount + properties.length } := by
  induction properties generalizing r innermost with
  | nil =>
    obtain ⟨stack, root, components, propertyCount⟩ := r
    cases hstack
    simp [readLines, eq_comm]
  | cons property properties ih =>
    obtain ⟨hproperty, hbegin, hend⟩ := hok _ List.mem_cons_self
    rw [List.length_cons] at hcount
    have hread : ∀ property', readProperty r property' =
        .ok { r with stack := innermost.addProperty property' :: outer, propertyCount := r.propertyCount + 1 } := by
      intro property'
      rw [readProperty, hstack]
      dsimp only
      rw [if_neg (by omega)]
    have hrest := fun property' => ih (fun p hp => hok p (List.mem_cons_of_mem _ hp))
      (r := { r with stack := innermost.addProperty property' :: outer, propertyCount := r.propertyCount + 1 }) rfl
      (by dsimp only; omega)
    have hlength : r.propertyCount + 1 + properties.length = r.propertyCount + (property :: properties).length := by
      rw [List.length_cons]
      omega
    rw [List.map_cons, readLines_cons]
    constructor
    · rintro ⟨t, ht, hs⟩
      obtain ⟨property', hproperty', ht⟩ := (readLine_property hproperty hbegin hend).1 ht
      rw [hread] at ht
      cases ht
      obtain ⟨properties', hproperties', rfl⟩ := (hrest property').1 hs
      refine ⟨property' :: properties', ?_, ?_⟩
      · rw [List.mapM_cons, hproperties', rereadProperty, hproperty']
        rfl
      · simp only [List.foldl_cons, hlength]
    · rintro ⟨properties', hproperties', rfl⟩
      rw [List.mapM_cons] at hproperties'
      obtain ⟨property', hproperty', hproperties'⟩ := Option.bind_eq_some_iff.1 hproperties'
      obtain ⟨rest', hrest', hcons⟩ := Option.bind_eq_some_iff.1 hproperties'
      cases hcons
      refine ⟨_, (readLine_property hproperty hbegin hend).2 ⟨property', hproperty', hread property'⟩, ?_⟩
      refine (hrest property').2 ⟨rest', hrest', ?_⟩
      simp only [List.foldl_cons, hlength]

/-- The children read as the innermost component's. -/
def Reader.withChildren (r : Reader) (innermost : ICalComponent) (outer children children' : List ICalComponent) : Reader :=
  { r with stack := children'.foldl ICalComponent.addChild innermost :: outer,
           components := r.components + (childNodes children).length,
           propertyCount := r.propertyCount + ((childNodes children).flatMap Prod.snd).length }

/-- The lines of these children are read as the children they are read as. -/
def ReadAsChildren (children : List ICalComponent) : Prop :=
  ∀ (r s : Reader) (innermost : ICalComponent) (outer : List ICalComponent), r.stack = innermost :: outer →
    r.root = none → outer.length + 1 + childHeight children ≤ maxDepth →
    r.components + (childNodes children).length ≤ maxComponents →
    r.propertyCount + ((childNodes children).flatMap Prod.snd).length ≤ maxProperties →
    (readLines r ((childEntries children).map Prod.snd) = .ok s ↔
      ∃ children', rereadChildren children = some children' ∧ s = r.withChildren innermost outer children children')

/-- What comes between the BEGIN and the END of a component. -/
theorem readLines_body {name : AnsiString} {properties : List ICalProperty} {children : List ICalComponent}
    (hnode : NodeOk (name, properties)) (hchildren : ReadAsChildren children) {r s : Reader} {outer : List ICalComponent}
    (hstack : r.stack = .mk name [] [] :: outer) (hroot : r.root = none)
    (hdepth : outer.length + 1 + childHeight children ≤ maxDepth)
    (hcomponents : r.components + (childNodes children).length ≤ maxComponents)
    (hproperties : r.propertyCount + (properties.length + ((childNodes children).flatMap Prod.snd).length) ≤ maxProperties) :
    readLines r (properties.map propertyLine ++ (childEntries children).map Prod.snd ++ [ansi "END:" ++ name]) = .ok s ↔
      ∃ properties' children', properties.mapM rereadProperty = some properties' ∧
        rereadChildren children = some children' ∧
        readEnd { r with stack := .mk name properties' children' :: outer,
                         components := r.components + (childNodes children).length,
                         propertyCount := r.propertyCount +
                           (properties.length + ((childNodes children).flatMap Prod.snd).length) } name = .ok s := by
  have hend : ∀ t : Reader, readLines t [ansi "END:" ++ name] = .ok s ↔ readEnd t name = .ok s := by
    intro t
    rw [readLines_cons, readLine_end hnode]
    simp [readLines]
  have hown : ∀ t : Reader, readLines r (properties.map propertyLine) = .ok t ↔
      ∃ properties', properties.mapM rereadProperty = some properties' ∧
        t = { r with stack := .mk name properties' [] :: outer, propertyCount := r.propertyCount + properties.length } := by
    intro t
    have hread := @readLines_properties properties hnode.properties r t _ _ hstack (by omega)
    simp only [foldl_addProperty, List.nil_append] at hread
    exact hread
  have hinner : ∀ (properties' : List ICalProperty) (u : Reader),
      readLines { r with stack := .mk name properties' [] :: outer, propertyCount := r.propertyCount + properties.length }
        ((childEntries children).map Prod.snd) = .ok u ↔
      ∃ children', rereadChildren children = some children' ∧
        u = { r with stack := .mk name properties' children' :: outer,
                     components := r.components + (childNodes children).length,
                     propertyCount := r.propertyCount +
                       (properties.length + ((childNodes children).flatMap Prod.snd).length) } := by
    intro properties' u
    have hread := hchildren
      { r with stack := .mk name properties' [] :: outer, propertyCount := r.propertyCount + properties.length } u
      (.mk name properties' []) outer rfl hroot hdepth hcomponents (by dsimp only; omega)
    simp only [Reader.withChildren, foldl_addChild, List.nil_append, Nat.add_assoc] at hread
    exact hread
  constructor
  · intro h
    obtain ⟨u, h, hs⟩ := readLines_append.1 h
    obtain ⟨t, h, hu⟩ := readLines_append.1 h
    obtain ⟨properties', hproperties', rfl⟩ := (hown t).1 h
    obtain ⟨children', hchildren', rfl⟩ := (hinner properties' u).1 hu
    exact ⟨properties', children', hproperties', hchildren', (hend _).1 hs⟩
  · rintro ⟨properties', children', hproperties', hchildren', hs⟩
    have ht := (hown _).2 ⟨properties', hproperties', rfl⟩
    have hu := (hinner properties' _).2 ⟨children', hchildren', rfl⟩
    exact readLines_append.2 ⟨_, readLines_append.2 ⟨_, ht, hu⟩, (hend _).2 hs⟩

theorem contentLines_eq (name : AnsiString) (properties : List ICalProperty) (children : List ICalComponent) :
    (entries (.mk name properties children)).map Prod.snd =
      (ansi "BEGIN:" ++ name) ::
        (properties.map propertyLine ++ (childEntries children).map Prod.snd ++ [ansi "END:" ++ name]) := by
  rw [entries]
  simp [Function.comp_def]

mutual

/-- A component inside others is read as the component it is read as. -/
theorem readLines_component : ∀ component : ICalComponent, (∀ node ∈ nodes component, NodeOk node) →
    ∀ (r s : Reader) (innermost : ICalComponent) (outer : List ICalComponent), r.stack = innermost :: outer →
    r.root = none → outer.length + 1 + height component ≤ maxDepth →
    r.components + (nodes component).length ≤ maxComponents →
    r.propertyCount + (properties component).length ≤ maxProperties →
    (readLines r ((entries component).map Prod.snd) = .ok s ↔
      ∃ component', reread component = some component' ∧
        s = { r with stack := innermost.addChild component' :: outer,
                     components := r.components + (nodes component).length,
                     propertyCount := r.propertyCount + (properties component).length })
  | .mk name own children, hnodes, r, s, innermost, outer, hstack, hroot, hdepth, hcomponents, hproperties => by
    have hlength : (properties (.mk name own children)).length =
        own.length + ((childNodes children).flatMap Prod.snd).length := by
      rw [properties, nodes, List.flatMap_cons, List.length_append]
    rw [nodes] at hnodes
    rw [nodes, List.length_cons] at hcomponents
    rw [height] at hdepth
    rw [hlength] at hproperties
    have hnode := hnodes _ List.mem_cons_self
    have hchildren := readLines_children children fun node hmem => hnodes node (List.mem_cons_of_mem _ hmem)
    have hne : name ≠ [] := hnode.name_ne
    have hbegin : readBegin r name =
        .ok { r with stack := .mk name [] [] :: innermost :: outer, components := r.components + 1 } := by
      rw [readBegin, hroot, hstack]
      dsimp only
      rw [if_neg (by simp), if_neg hne, if_neg (by rw [List.length_cons]; omega), if_neg (by omega)]
    have hbody := @readLines_body name own children hnode hchildren
      { r with stack := .mk name [] [] :: innermost :: outer, components := r.components + 1 } s (innermost :: outer)
      rfl hroot (by rw [List.length_cons]; omega) (by dsimp only; omega) hproperties
    have hend : ∀ properties' children', readEnd
        { r with stack := .mk name properties' children' :: innermost :: outer,
                 components := r.components + 1 + (childNodes children).length,
                 propertyCount := r.propertyCount +
                   (own.length + ((childNodes children).flatMap Prod.snd).length) } name =
        .ok { r with stack := innermost.addChild (.mk name properties' children') :: outer,
                     components := r.components + (nodes (.mk name own children)).length,
                     propertyCount := r.propertyCount + (properties (.mk name own children)).length } := by
      intro properties' children'
      have hcount : r.components + 1 + (childNodes children).length =
          r.components + (nodes (.mk name own children)).length := by
        rw [nodes, List.length_cons]
        omega
      rw [hcount, hlength]
      simp [readEnd, ICalComponent.name]
    rw [contentLines_eq, readLines_cons, readLine_begin hnode, hbegin]
    constructor
    · rintro ⟨t, ht, hs⟩
      cases ht
      obtain ⟨properties', children', hproperties', hchildren', hs⟩ := hbody.1 hs
      rw [hend] at hs
      cases hs
      exact ⟨.mk name properties' children', by rw [reread, hproperties', hchildren']; rfl, rfl⟩
    · rintro ⟨component', hcomponent', rfl⟩
      rw [reread] at hcomponent'
      obtain ⟨properties', hproperties', hcomponent'⟩ := Option.bind_eq_some_iff.1 hcomponent'
      obtain ⟨children', hchildren', rfl⟩ := Option.map_eq_some_iff.1 hcomponent'
      exact ⟨_, rfl, hbody.2 ⟨properties', children', hproperties', hchildren', hend properties' children'⟩⟩

theorem readLines_children : ∀ children : List ICalComponent, (∀ node ∈ childNodes children, NodeOk node) →
    ReadAsChildren children
  | [], _ => by
    intro r s innermost outer hstack _ _ _ _
    obtain ⟨stack, root, components, propertyCount⟩ := r
    cases hstack
    simp [readLines, rereadChildren, childEntries, childNodes, Reader.withChildren, eq_comm]
  | child :: children, hnodes => by
    intro r s innermost outer hstack hroot hdepth hcomponents hproperties
    rw [childNodes] at hnodes hcomponents hproperties
    rw [childHeight] at hdepth
    rw [List.length_append] at hcomponents
    rw [List.flatMap_append, List.length_append] at hproperties
    have hchild := fun t => readLines_component child (fun node hmem => hnodes node (List.mem_append_left _ hmem)) r t
      innermost outer hstack hroot (by omega) (by omega) (by rw [properties]; omega)
    have hrest := fun child' => readLines_children children (fun node hmem => hnodes node (List.mem_append_right _ hmem))
      { r with stack := innermost.addChild child' :: outer, components := r.components + (nodes child).length,
               propertyCount := r.propertyCount + (properties child).length } s (innermost.addChild child') outer rfl hroot
      (by omega) (by dsimp only; omega) (by rw [properties]; dsimp only; omega)
    have hjoin : ∀ child' children', Reader.withChildren
        { r with stack := innermost.addChild child' :: outer, components := r.components + (nodes child).length,
                 propertyCount := r.propertyCount + (properties child).length } (innermost.addChild child') outer children
          children' = r.withChildren innermost outer (child :: children) (child' :: children') := by
      intro child' children'
      simp only [Reader.withChildren, List.foldl_cons, childNodes, List.length_append, List.flatMap_append, properties,
        Nat.add_assoc]
    rw [childEntries, List.map_append, readLines_append]
    constructor
    · rintro ⟨t, ht, hs⟩
      obtain ⟨child', hchild', rfl⟩ := (hchild t).1 ht
      obtain ⟨children', hchildren', rfl⟩ := (hrest child').1 hs
      exact ⟨child' :: children', by rw [rereadChildren, hchild', hchildren']; rfl, hjoin child' children'⟩
    · rintro ⟨result, hresult, rfl⟩
      rw [rereadChildren] at hresult
      obtain ⟨child', hchild', hresult⟩ := Option.bind_eq_some_iff.1 hresult
      obtain ⟨children', hchildren', rfl⟩ := Option.map_eq_some_iff.1 hresult
      exact ⟨_, (hchild _).2 ⟨child', hchild', rfl⟩, (hrest child').2 ⟨children', hchildren', (hjoin child' children').symm⟩⟩

end

theorem parse_eq_ok {text : AnsiString} {root : ICalComponent} :
    parse text = .ok root ↔ ∃ r, readLines {} (unfoldLines text) = .ok r ∧ finishReading r = .ok root := by
  unfold parse
  cases readLines {} (unfoldLines text) with
  | error problem => simp
  | ok r => simp

/-- A text with the lines of a calendar is read as the calendar they are read as. -/
theorem parse_contentLines {root : ICalComponent} (hok : TreeOk root) {text : AnsiString}
    (hlines : unfoldLines text = (entries root).map Prod.snd) {root' : ICalComponent} :
    parse text = .ok root' ↔ reread root = some root' := by
  obtain ⟨name, own, children⟩ := root
  obtain ⟨hnodes, hcomponents, hproperties, hdepth, hcalendar⟩ := hok
  rw [nodes] at hnodes
  rw [nodes, List.length_cons] at hcomponents
  rw [properties, nodes, List.flatMap_cons, List.length_append] at hproperties
  dsimp only at hproperties
  rw [height] at hdepth
  have hnode := hnodes _ List.mem_cons_self
  have hchildren := readLines_children children fun node hmem => hnodes node (List.mem_cons_of_mem _ hmem)
  have hname : name = ansi "VCALENDAR" := hcalendar
  have hbegin : readBegin {} name = .ok { stack := [.mk name [] []] } := by
    rw [hname]
    rfl
  have hbody := fun s => @readLines_body name own children hnode hchildren { stack := [.mk name [] []] } s [] rfl rfl
    (by rw [List.length_nil]; omega) (by dsimp only; omega) (by dsimp only; omega)
  have hend : ∀ (properties' : List ICalProperty) (children' : List ICalComponent) (components propertyCount : Nat),
      readEnd { stack := [.mk name properties' children'], components := components, propertyCount := propertyCount } name =
        .ok { root := some (.mk name properties' children'), components := components, propertyCount := propertyCount } := by
    intro properties' children' components propertyCount
    simp [readEnd, ICalComponent.name]
  rw [parse_eq_ok, hlines, contentLines_eq]
  constructor
  · rintro ⟨r, hr, hfinish⟩
    obtain ⟨t, ht, hr⟩ := readLines_cons.1 hr
    rw [readLine_begin hnode, hbegin] at ht
    cases ht
    obtain ⟨properties', children', hproperties', hchildren', hr⟩ := (hbody r).1 hr
    rw [hend] at hr
    cases hr
    cases hfinish
    rw [reread, hproperties', hchildren']
    rfl
  · intro h
    rw [reread] at h
    obtain ⟨properties', hproperties', h⟩ := Option.bind_eq_some_iff.1 h
    obtain ⟨children', hchildren', rfl⟩ := Option.map_eq_some_iff.1 h
    refine ⟨_, readLines_cons.2 ⟨_, by rw [readLine_begin hnode, hbegin],
      (hbody _).2 ⟨properties', children', hproperties', hchildren', hend ..⟩⟩, rfl⟩

theorem mapM_eq_self {properties : List ICalProperty} :
    properties.mapM rereadProperty = some properties ↔ ∀ p ∈ properties, rereadProperty p = some p := by
  induction properties with
  | nil => simp
  | cons property properties ih =>
    rw [List.mapM_cons, List.forall_mem_cons, ← ih]
    constructor
    · intro h
      obtain ⟨property', hproperty', h⟩ := Option.bind_eq_some_iff.1 h
      obtain ⟨properties', hproperties', h⟩ := Option.bind_eq_some_iff.1 h
      cases h
      exact ⟨hproperty', hproperties'⟩
    · rintro ⟨hproperty, hproperties⟩
      rw [hproperty, hproperties]
      rfl

mutual

theorem reread_eq_self : ∀ component : ICalComponent,
    reread component = some component ↔ ∀ p ∈ properties component, rereadProperty p = some p
  | .mk name own children => by
    have hchildren := rereadChildren_eq_self children
    rw [properties, nodes, List.flatMap_cons, List.forall_mem_append, ← hchildren, ← mapM_eq_self, reread]
    constructor
    · intro h
      obtain ⟨properties', hproperties', h⟩ := Option.bind_eq_some_iff.1 h
      obtain ⟨children', hchildren', h⟩ := Option.map_eq_some_iff.1 h
      cases h
      exact ⟨hproperties', hchildren'⟩
    · rintro ⟨hproperties, hchildren⟩
      rw [hproperties, hchildren]
      rfl

theorem rereadChildren_eq_self : ∀ children : List ICalComponent,
    rereadChildren children = some children ↔ ∀ p ∈ (childNodes children).flatMap Prod.snd, rereadProperty p = some p
  | [] => by simp [rereadChildren, childNodes]
  | child :: children => by
    have hchild := reread_eq_self child
    have hchildren := rereadChildren_eq_self children
    rw [childNodes, List.flatMap_append, List.forall_mem_append, ← hchildren, ← properties, ← hchild, rereadChildren]
    constructor
    · intro h
      obtain ⟨child', hchild', h⟩ := Option.bind_eq_some_iff.1 h
      obtain ⟨children', hchildren', h⟩ := Option.map_eq_some_iff.1 h
      cases h
      exact ⟨hchild', hchildren'⟩
    · rintro ⟨hchild, hchildren⟩
      rw [hchild, hchildren]
      rfl

end

/-! ## The text of a tree -/

mutual

/-- A line of a tree is the BEGIN or END of a component or the line of a property. -/
theorem mem_entries : ∀ (component : ICalComponent) (entry : Bool × AnsiString), entry ∈ entries component ↔
    ∃ node ∈ nodes component, entry = (false, ansi "BEGIN:" ++ node.1) ∨ entry = (false, ansi "END:" ++ node.1) ∨
      ∃ property ∈ node.2, entry = (true, propertyLine property)
  | .mk name own children, entry => by
    have hchildren := mem_childEntries children entry
    rw [entries, nodes, List.exists_mem_cons_iff, ← hchildren]
    have hown : (∃ property ∈ own, (true, propertyLine property) = entry) ↔
        ∃ property ∈ own, entry = (true, propertyLine property) := by simp only [eq_comm]
    simp only [List.mem_append, List.mem_cons, List.mem_map, List.not_mem_nil, or_false, List.cons_append, hown]
    constructor
    · rintro (h | (h | h) | h)
      · exact .inl (.inl h)
      · exact .inl (.inr (.inr h))
      · exact .inr h
      · exact .inl (.inr (.inl h))
    · rintro ((h | h | h) | h)
      · exact .inl h
      · exact .inr (.inr h)
      · exact .inr (.inl (.inl h))
      · exact .inr (.inl (.inr h))

theorem mem_childEntries : ∀ (children : List ICalComponent) (entry : Bool × AnsiString), entry ∈ childEntries children ↔
    ∃ node ∈ childNodes children, entry = (false, ansi "BEGIN:" ++ node.1) ∨ entry = (false, ansi "END:" ++ node.1) ∨
      ∃ property ∈ node.2, entry = (true, propertyLine property)
  | [], entry => by simp [childEntries, childNodes]
  | child :: children, entry => by
    have hchild := mem_entries child entry
    have hchildren := mem_childEntries children entry
    rw [childEntries, childNodes, List.mem_append, hchild, hchildren]
    simp only [List.mem_append, or_and_right, exists_or]

end

theorem isSpaceOrTab_name : ∀ c, isNameCharacter c = true → isSpaceOrTab c = false ∧ c ≠ 32 :=
  Byte.forall_of_lt (by decide +kernel)

/-- A property's line begins with two bytes that continue nothing. -/
theorem propertyLine_head {property : ICalProperty} (hok : PropertyOk property) :
    ∃ c d rest, propertyLine property = c :: d :: rest ∧ isNameCharacter c = true ∧ isContinuation d = false := by
  have hname := hok.name_characters
  rw [propertyLine_eq, makeUpper_name hname, partsText_eq hok.parameters, List.append_assoc]
  cases hcases : property.name with
  | nil => exact absurd hcases hok.name_ne
  | cons c name =>
    have hc := hname c (by rw [hcases]; exact List.mem_cons_self)
    cases name with
    | nil =>
      cases property.parameters with
      | nil => exact ⟨c, 58, property.value, rfl, hc, by decide⟩
      | cons parameter rest =>
        rw [parts_cons]
        exact ⟨c, 59, _, rfl, hc, by decide⟩
    | cons d name =>
      have hd := hname d (by rw [hcases]; simp)
      exact ⟨c, d, _, rfl, hc, (isNameCharacter_facts d hd).2.2.2.2.2.2⟩

theorem propertyLine_break {property : ICalProperty} (hok : PropertyOk property) : 10 ∉ propertyLine property := by
  rw [propertyLine_eq, makeUpper_name hok.name_characters, partsText_eq hok.parameters]
  simp only [List.mem_append, List.mem_cons, not_or]
  exact ⟨⟨(notMem_name hok.name_characters).2.2.2, parts_break hok.parameters⟩, by decide, hok.value_break⟩

theorem Written.break {line : AnsiString} {lines : List AnsiString} (h : Written line lines) (hbreak : 10 ∉ line) :
    ∀ physical ∈ lines, 10 ∉ physical := by
  obtain ⟨c, first, rest, _, rfl, rfl⟩ := h
  rw [List.mem_append, not_or] at hbreak
  intro physical hphysical
  obtain rfl | hphysical := List.mem_cons.1 hphysical
  · exact hbreak.1
  · obtain ⟨piece, hpiece, rfl⟩ := List.mem_map.1 hphysical
    rw [List.mem_cons, not_or]
    exact ⟨by decide, fun hmem => hbreak.2 (List.mem_flatten.2 ⟨piece, hpiece, hmem⟩)⟩

section

variable {root : ICalComponent} (hok : TreeOk root)
include hok

/-- Every content line is written as physical lines, and none holds a line break. -/
theorem written_entries : ∀ entry ∈ entries root, Written entry.2 (writtenLines entry) ∧ 10 ∉ entry.2 := by
  intro entry hentry
  obtain ⟨node, hnode, hentry⟩ := (mem_entries root entry).1 hentry
  have hnodeok := hok.nodes node hnode
  have hbreak : (10 : UInt8) ∉ node.1 := hnodeok.name_break
  obtain rfl | rfl | ⟨property, hproperty, rfl⟩ := hentry
  · exact ⟨written_whole (by decide) _, by simp [ansi, hbreak]⟩
  · exact ⟨written_whole (by decide) _, by simp [ansi, hbreak]⟩
  · have hpropertyok := (hnodeok.properties property hproperty).1
    refine ⟨?_, propertyLine_break hpropertyok⟩
    obtain ⟨c, d, rest, hline, hc, _⟩ := propertyLine_head hpropertyok
    show Written (propertyLine property) (foldedLines (propertyLine property))
    rw [hline]
    exact written_foldedLines (isSpaceOrTab_name c hc).1 _

/-- The physical lines of a written tree. -/
theorem physicalLines_serialize : physicalLines (serialize root) = (entries root).flatMap writtenLines := by
  rw [serialize, serializeInto_eq root 0 hok.nodes (by have := hok.depth; omega)]
  refine physicalLines_flatMap fun line hline => ?_
  obtain ⟨entry, hentry, hline⟩ := List.mem_flatMap.1 hline
  obtain ⟨hwritten, hbreak⟩ := written_entries hok entry hentry
  exact hwritten.break hbreak line hline

/-- Written and unfolded, the lines are those of the tree. -/
theorem unfoldLines_serialize : unfoldLines (serialize root) = (entries root).map Prod.snd := by
  have hwritten : List.Forall₂ Written ((entries root).map Prod.snd) ((entries root).map writtenLines) := by
    rw [List.forall₂_map_left_iff, List.forall₂_map_right_iff, List.forall₂_same]
    exact fun entry hentry => (written_entries hok entry hentry).1
  rw [unfoldLines, physicalLines_serialize hok, List.flatMap_def, joinLines_written hwritten none]
  rfl

/-- The tree comes back exactly where every parameter survives. -/
theorem parse_serialize :
    parse (serialize root) = .ok root ↔
      ∀ property ∈ properties root, ∀ parameter ∈ property.parameters, Survives parameter := by
  rw [parse_contentLines hok (unfoldLines_serialize hok), reread_eq_self]
  refine forall₂_congr fun property hproperty => ?_
  obtain ⟨node, hnode, hproperty⟩ := List.mem_flatMap.1 hproperty
  exact parseContentLine_propertyLine ((hok.nodes node hnode).properties property hproperty).1

/-- No physical line is too long exactly where no component name is. -/
theorem length_serialize :
    (∀ line ∈ physicalLines (serialize root), line.length ≤ foldWidth) ↔ ∀ node ∈ nodes root, node.1.length ≤ 69 := by
  rw [physicalLines_serialize hok]
  constructor
  · intro h node hnode
    have hlength := h (ansi "BEGIN:" ++ node.1) (List.mem_flatMap.2
      ⟨(false, ansi "BEGIN:" ++ node.1), (mem_entries root _).2 ⟨node, hnode, .inl rfl⟩, List.mem_singleton.2 rfl⟩)
    rw [List.length_append, show (ansi "BEGIN:").length = 6 by decide, show foldWidth = 75 from rfl] at hlength
    omega
  · intro h line hline
    obtain ⟨entry, hentry, hline⟩ := List.mem_flatMap.1 hline
    obtain ⟨node, hnode, rfl | rfl | ⟨property, _, rfl⟩⟩ := (mem_entries root entry).1 hentry
    · have hname := h node hnode
      rw [List.mem_singleton.1 hline, List.length_append, show (ansi "BEGIN:").length = 6 by decide,
        show foldWidth = 75 from rfl]
      omega
    · have hname := h node hnode
      rw [List.mem_singleton.1 hline, List.length_append, show (ansi "END:").length = 4 by decide,
        show foldWidth = 75 from rfl]
      omega
    · exact length_foldedLines _ line hline

/-- A fold stands in front of a continuation byte exactly where a property's line
    is flooded with them. -/
theorem torn_serialize :
    (∀ piece, 32 :: piece ∈ physicalLines (serialize root) → ¬Torn piece) ↔
      ∀ property ∈ properties root, ¬Flooded (propertyLine property) := by
  rw [physicalLines_serialize hok]
  have hfolded : ∀ property ∈ properties root,
      (∃ piece, 32 :: piece ∈ foldedLines (propertyLine property) ∧ Torn piece) ↔ Flooded (propertyLine property) := by
    intro property hproperty
    obtain ⟨node, hnode, hproperty⟩ := List.mem_flatMap.1 hproperty
    obtain ⟨c, d, rest, hline, hc, hd⟩ := propertyLine_head ((hok.nodes node hnode).properties property hproperty).1
    rw [hline]
    exact torn_foldedLines (isSpaceOrTab_name c hc).2 (isNameCharacter_facts c hc).2.2.2.2.2.2 hd
  constructor
  · intro h property hproperty hflood
    obtain ⟨piece, hpiece, htorn⟩ := (hfolded property hproperty).2 hflood
    obtain ⟨node, hnode, hproperty⟩ := List.mem_flatMap.1 hproperty
    exact h piece (List.mem_flatMap.2 ⟨(true, propertyLine property),
      (mem_entries root _).2 ⟨node, hnode, .inr (.inr ⟨property, hproperty, rfl⟩)⟩, hpiece⟩) htorn
  · intro h piece hpiece htorn
    obtain ⟨entry, hentry, hpiece⟩ := List.mem_flatMap.1 hpiece
    obtain ⟨node, hnode, rfl | rfl | ⟨property, hproperty, rfl⟩⟩ := (mem_entries root entry).1 hentry
    · exact absurd (List.cons_eq_cons.1 (List.mem_singleton.1 hpiece)).1 (by decide)
    · exact absurd (List.cons_eq_cons.1 (List.mem_singleton.1 hpiece)).1 (by decide)
    · have hmem : property ∈ properties root := List.mem_flatMap.2 ⟨node, hnode, hproperty⟩
      exact h property hmem ((hfolded property hmem).1 ⟨piece, hpiece, htorn⟩)

end

/-! ## Text values -/

theorem unescape_escapeByte {c : UInt8} (hc : c ≠ 13) (rest : AnsiString) :
    unescape (escapeByte c ++ rest) = c :: unescape rest := by
  unfold escapeByte
  split
  · rename_i h
    simp [unescape, h]
  split
  · rename_i h
    simp [unescape, h]
  split
  · rename_i h
    simp [unescape, h]
  split
  · rename_i h
    simp [unescape, h]
  · rename_i h _ _ _
    rw [List.singleton_append, unescape]
    intro next rest' h'
    exact absurd h' h

/-- Escaping is undone, carriage returns apart. -/
theorem unescape_escape {s : AnsiString} (h : 13 ∉ s) : unescape (escape s) = s := by
  induction s with
  | nil => rfl
  | cons c s ih =>
    rw [List.mem_cons, not_or] at h
    rw [escape, List.flatMap_cons, unescape_escapeByte (Ne.symm h.1), ← escape, ih h.2]

/-- A calendar text that was read is written and read again as it was, in lines
    of at most 75 octets with no fold in front of a continuation byte, exactly
    where its parameters survive, no component name is too long and no property
    is flooded; and text values come back from their escapes. -/
theorem calendar_text_survives (text : AnsiString) (root : ICalComponent) (h : parse text = .ok root) :
    (parse (serialize root) = .ok root ↔
      ∀ property ∈ properties root, ∀ parameter ∈ property.parameters, Survives parameter) ∧
    ((∀ line ∈ physicalLines (serialize root), line.length ≤ 75) ↔ ∀ node ∈ nodes root, node.1.length ≤ 69) ∧
    ((∀ piece, 32 :: piece ∈ physicalLines (serialize root) → ¬Torn piece) ↔
      ∀ property ∈ properties root, ¬Flooded (propertyLine property)) ∧
    ∀ s : AnsiString, 13 ∉ s → unescape (escape s) = s := by
  have hok := parse_ok h
  exact ⟨parse_serialize hok, length_serialize hok, torn_serialize hok, fun s hs => unescape_escape hs⟩

/-- Lines of a calendar with their line breaks. -/
def calendarText (lines : List String) : AnsiString := linesText (lines.map ansi)

theorem exists_of_toOption {text : AnsiString} {p : ICalComponent → Bool}
    (h : (parse text).toOption.map p = some true) : ∃ root, parse text = .ok root ∧ p root = true := by
  obtain ⟨root, hroot, hp⟩ := Option.map_eq_some_iff.1 h
  cases hparse : parse text with
  | error problem =>
    rw [hparse] at hroot
    cases hroot
  | ok root' =>
    rw [hparse] at hroot
    cases hroot
    exact ⟨root, rfl, hp⟩

theorem calendar_text_survives_quoted : ∃ root,
    parse (calendarText ["BEGIN:VCALENDAR", "X;CN=\"Bob; Jr\":v", "END:VCALENDAR"]) = .ok root ∧
      parse (serialize root) = .ok root := by
  have hnodes : (parse (calendarText ["BEGIN:VCALENDAR", "X;CN=\"Bob; Jr\":v", "END:VCALENDAR"])).toOption.map (fun root =>
      nodes root == [(ansi "VCALENDAR", [⟨ansi "X", ansi "v", [(ansi "CN", ansi "Bob; Jr")]⟩])]) = some true := by
    decide +kernel
  obtain ⟨root, hroot, hnodes⟩ := exists_of_toOption hnodes
  refine ⟨root, hroot, (calendar_text_survives _ root hroot).1.2 ?_⟩
  rw [properties, eq_of_beq hnodes]
  simp only [List.flatMap_cons, List.flatMap_nil, List.append_nil, List.mem_singleton, forall_eq]
  exact ⟨by decide, .inl (by decide)⟩

/-- The blanks inside a quoted parameter are lost, and a long component name makes
    a long line. -/
theorem calendar_text_lost :
    (∃ root, parse (calendarText ["BEGIN:VCALENDAR", "X;CN=\" Bob \":v", "END:VCALENDAR"]) = .ok root ∧
      parse (serialize root) ≠ .ok root) ∧
    ∃ root, parse (linesText [ansi "BEGIN:VCALENDAR", ansi "BEGIN:" ++ List.replicate 70 65,
      ansi "END:" ++ List.replicate 70 65, ansi "END:VCALENDAR"]) = .ok root ∧
      ∃ line ∈ physicalLines (serialize root), 75 < line.length := by
  refine ⟨?_, ?_⟩
  · have hlost : (parse (calendarText ["BEGIN:VCALENDAR", "X;CN=\" Bob \":v", "END:VCALENDAR"])).toOption.map (fun root =>
        (parse (serialize root)).toOption.map nodes != some (nodes root)) = some true := by decide +kernel
    obtain ⟨root, hroot, hlost⟩ := exists_of_toOption hlost
    refine ⟨root, hroot, fun h => ?_⟩
    rw [h] at hlost
    simp [Except.toOption] at hlost
  · have hlong : (parse (linesText [ansi "BEGIN:VCALENDAR", ansi "BEGIN:" ++ List.replicate 70 65,
        ansi "END:" ++ List.replicate 70 65, ansi "END:VCALENDAR"])).toOption.map (fun root =>
        (physicalLines (serialize root)).any fun line => decide (75 < line.length)) = some true := by decide +kernel
    obtain ⟨root, hroot, hlong⟩ := exists_of_toOption hlong
    obtain ⟨line, hline, hlength⟩ := List.any_eq_true.1 hlong
    exact ⟨root, hroot, line, hline, of_decide_eq_true hlength⟩

end HMailServer.ICalendar
