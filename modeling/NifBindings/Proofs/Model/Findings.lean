import NifBindings.Proofs.CommandLine.Run
import NifBindings.Proofs.Field.Outcome
import NifBindings.Proofs.Model.Reading

/-!
# Findings about a schema

The findings of a model come from two places. Each structure with fields adds the conflicts among
its declarations while it is read, and the objects with an unknown parent are reported behind them,
once all are known.
-/

namespace NifBindings

/-- Whether an entry describes a structure with fields. -/
def Profile.declaresFields (profile : Profile) (entry : Element) : Bool :=
  profile.declares .compound entry || profile.declares .object entry

/-- The name of the structure with fields that an entry describes, and the declarations of its
fields. -/
def readDeclarations (profile : Profile) (entry : Element) :
    Except InputError (String × List (String × FieldType)) := do
  let written ← entry.require "name"
  let owner := (EntryKind.ofTag? entry.tag).elim written fun kind => kind.storedName written
  let declarations ← declaredFields profile owner entry
  .ok (owner, declarations)

/-- The fields of an entry are made from its declarations, and the findings about it are their
conflicts. -/
theorem exists_readDeclarations {profile : Profile} {kind : EntryKind} {entry : Element}
    {written : String} {fields : FieldMap} {findings : List Diagnostic}
    (hkind : EntryKind.ofTag? entry.tag = some kind) (hname : entry.get? "name" = some written)
    (h : readFields profile (kind.storedName written) entry = .ok (fields, findings)) :
    ∃ declarations,
      readDeclarations profile entry = .ok (kind.storedName written, declarations) ∧
        findings = conflicts (kind.storedName written) declarations := by
  obtain ⟨declarations, hdeclared, -, hfindings⟩ := readFields_eq_ok_iff.mp h
  refine ⟨declarations, ?_, hfindings⟩
  refine bind_eq_ok_iff.mpr ⟨written, Element.require_eq_ok_iff.mpr hname, ?_⟩
  rw [hkind]
  exact bind_eq_ok_iff.mpr ⟨declarations, hdeclared, rfl⟩

/-- An entry with fields adds the conflicts among its declarations to the findings, and any other
entry leaves the findings as they are. -/
theorem Structures.diagnostics_addEntry {profile : Profile} {beginnings : OrderedMap String String}
    {structures next : Structures} {entry : Element}
    (h : addEntry profile beginnings structures entry = .ok next) :
    if profile.declaresFields entry then ∃ source, readDeclarations profile entry = .ok source ∧
      next.diagnostics = structures.diagnostics ++ conflicts source.1 source.2
    else next.diagnostics = structures.diagnostics := by
  unfold Profile.declaresFields
  rcases addEntry_cases h with ⟨bitField, htag, -, rfl⟩ |
    ⟨compound, findings, htag, hread, rfl⟩ | ⟨object, findings, htag, hroot, hread, rfl⟩ |
    ⟨hnone, rfl⟩
  · simp [Profile.declares, htag]
  · obtain ⟨⟨written, hwritten, hname⟩, hfields⟩ := Compound.exists_of_ofElement hread
    rw [hname] at hfields
    obtain ⟨declarations, hdeclarations, rfl⟩ := exists_readDeclarations htag hwritten hfields
    rw [if_pos (by simp [Profile.declares, htag])]
    exact ⟨_, hdeclarations, rfl⟩
  · obtain ⟨⟨written, hwritten, hname⟩, -, hfields⟩ := NiObject.exists_of_ofElement hread
    rw [hname] at hfields
    obtain ⟨declarations, hdeclarations, rfl⟩ := exists_readDeclarations htag hwritten hfields
    rw [if_pos (by simp [Profile.declares, htag, hroot])]
    exact ⟨_, hdeclarations, rfl⟩
  · rw [hnone .compound (by simp), hnone .object (by simp)]
    rfl

/-- The findings of a run over entries are the conflicts among the declarations of each entry with
fields, in order. -/
theorem Structures.diagnostics_of_foldlM {profile : Profile} {beginnings : OrderedMap String String}
    {entries : List Element} {structures : Structures}
    (h : entries.foldlM (addEntry profile beginnings) {} = .ok structures) :
    ∃ sources, (entries.filter profile.declaresFields).mapM (readDeclarations profile) =
        .ok sources ∧
      structures.diagnostics = sources.flatMap fun source => conflicts source.1 source.2 := by
  obtain ⟨sources, hsources, hfindings⟩ := exists_foldl_of_foldlM Structures.diagnostics
    (fun findings (source : String × List (String × FieldType)) =>
      findings ++ conflicts source.1 source.2) h Structures.diagnostics_addEntry
  exact ⟨sources, hsources, by rw [hfindings, List.flatMap_eq_foldl]⟩

/-- The findings about parents that are no objects. -/
def unresolvedParents (objects : OrderedMap String NiObject) : List Diagnostic :=
  objects.entries.filterMap fun (name, object) =>
    match object.parent with
    | none => none
    | some parent => if parent ∈ objects.keys then none else some (.unresolvedParent name parent)

/-- The links of objects report the parents that are no objects. -/
theorem unresolved_parentLinks (objects : OrderedMap String NiObject) :
    (Model.parentLinks objects).unresolved = unresolvedParents objects := by
  have hentries : (Model.parentLinks objects).entries =
      objects.entries.map fun entry => (entry.1, entry.2.parent) := rfl
  have hkeys : (Model.parentLinks objects).keys = objects.keys := by
    simp [OrderedMap.keys, hentries, Function.comp_def]
  rw [ParentLinks.unresolved, unresolvedParents, hentries, List.filterMap_map]
  apply List.filterMap_congr
  rintro ⟨name, object⟩ -
  dsimp only [Function.comp_apply]
  cases object.parent with
  | none => rfl
  | some parent =>
    have hcontains := (Model.parentLinks objects).contains_iff_mem_keys parent
    rw [hkeys] at hcontains
    by_cases hmem : parent ∈ objects.keys
    · simp [hmem, hcontains.mpr hmem]
    · simp [hmem, Bool.eq_false_iff.mpr fun h => hmem (hcontains.mp h)]

/-- All findings about the declarations of an entry are about fields. -/
theorem conflictCount_conflicts (owner : String) (declarations : List (String × FieldType)) :
    conflictCount (conflicts owner declarations) = (conflicts owner declarations).length := by
  rw [conflictCount, List.countP_eq_length]
  intro finding hfinding
  obtain ⟨earlier, declaration, -, -, hconflict⟩ := mem_conflicts_iff.mp hfinding
  obtain ⟨old, -, -, -, rfl⟩ := conflictBehind?_eq_some_iff.mp hconflict
  rfl

/-- No finding about a parent is about a field. -/
theorem conflictCount_unresolvedParents (objects : OrderedMap String NiObject) :
    conflictCount (unresolvedParents objects) = 0 := by
  rw [conflictCount, List.countP_eq_zero]
  intro finding hfinding
  obtain ⟨⟨name, object⟩, -, hobject⟩ := List.mem_filterMap.mp hfinding
  dsimp only at hobject
  split at hobject
  · cases hobject
  · split at hobject
    · cases hobject
    · cases hobject
      simp [Diagnostic.isConflict]

/-- The findings about fields are all findings but those about parents. -/
theorem conflictCount_findings (sources : List (String × List (String × FieldType)))
    (objects : OrderedMap String NiObject) :
    conflictCount ((sources.flatMap fun source => conflicts source.1 source.2) ++
      unresolvedParents objects) =
      (sources.flatMap fun source => conflicts source.1 source.2).length := by
  have hnone := conflictCount_unresolvedParents objects
  have hall (source : String × List (String × FieldType)) :=
    conflictCount_conflicts source.1 source.2
  unfold conflictCount at hnone hall ⊢
  rw [List.countP_append, hnone, Nat.add_zero, List.countP_flatMap, List.length_flatMap]
  simp only [Function.comp_def, hall]

namespace Model

/-- The findings of a model are exact. They are the conflicts among the declarations of each emitted
entry with fields, entry by entry in the order of the document, and behind them one finding for each
object whose parent is no object of the model, in the order of the objects. Every declaration of
such an entry adds a field, is dropped, is merged or is reported, which is decided by what is stored
of its name by then. A run of the generator on the document counts the conflicts. -/
theorem diagnostics_eq_conflicts_append {profile : Profile} {document : Document} {model : Model}
    (h : ofDocument profile document = .ok model) :
    ∃ entries sources, filterEmitted profile.emitsEntry document.entries = .ok entries ∧
      (entries.filter profile.declaresFields).mapM (readDeclarations profile) = .ok sources ∧
      model.diagnostics = (sources.flatMap fun source => conflicts source.1 source.2) ++
        unresolvedParents model.objects ∧
      (∀ entry ∈ entries, profile.declaresFields entry = true → ∃ owner declarations fields,
        readDeclarations profile entry = .ok (owner, declarations) ∧
          readFields profile owner entry = .ok (fields, conflicts owner declarations) ∧
          (∀ seen ∈ withEarlier [] declarations, (FieldMap.ofDeclarations seen.1).get? seen.2.1 =
            collapsed? (declaredUnder seen.2.1 seen.1)) ∧
          declarations.length = fields.size + (answers declarations).count .dropped +
            (answers declarations).count .merged + (conflicts owner declarations).length) ∧
      ∀ {options : Options} {tree final : FileTree} {text : String} {summary : Summary},
        options.profileIn tree = .ok profile → tree.readText options.xml = .ok text →
          Document.parse text = .ok document →
          (options.run : StateM FileTree _).run tree = (.ok summary, final) →
            summary.conflicts =
              (sources.flatMap fun source => conflicts source.1 source.2).length := by
  obtain ⟨entries, structures, hentries, hread, -, hstructures, -⟩ := exists_of_ofDocument h
  obtain ⟨variants, -, hread⟩ := bind_eq_ok_iff.mp hread
  obtain ⟨structures', hrun, hread⟩ := bind_eq_ok_iff.mp hread
  cases hread
  obtain ⟨sources, hsources, hfindings⟩ := Structures.diagnostics_of_foldlM hrun
  have hdiagnostics : model.diagnostics =
      (sources.flatMap fun source => conflicts source.1 source.2) ++
        unresolvedParents model.objects := by
    rw [hstructures, ← hfindings, unresolved_parentLinks]
  refine ⟨entries, sources, hentries, hsources, hdiagnostics, ?_, ?_⟩
  · intro entry hentry hdeclares
    obtain ⟨⟨owner, declarations⟩, hdeclarations⟩ :=
      exists_ok_of_mapM hsources (List.mem_filter.mpr ⟨hentry, hdeclares⟩)
    obtain ⟨written, -, hdeclared⟩ := bind_eq_ok_iff.mp hdeclarations
    obtain ⟨declared, hdeclared, hsame⟩ := bind_eq_ok_iff.mp hdeclared
    cases hsame
    exact ⟨_, declarations, FieldMap.ofDeclarations declarations, hdeclarations,
      readFields_eq_ok_iff.mpr ⟨declarations, hdeclared, rfl, rfl⟩,
      fun seen _ => FieldMap.get?_ofDeclarations seen.1 seen.2.1, length_eq_size_add _ declarations⟩
  · intro options tree final text summary hprofile htext hparse hsummary
    have hmodel := ofFileIn_eq_ok_of_parse htext hparse h
    rw [Options.conflicts_of_run hsummary hprofile hmodel, hdiagnostics, conflictCount_findings]

/-- A schema with an object of unknown parent, and with a field that is declared under a condition,
then with another type, and then twice with its own type and without a condition. -/
def redeclaringText : String :=
  "<nif><niobject name=\"NiNode\" inherit=\"NiAV\"/><struct name=\"Ball\">" ++
    "<add name=\"R\" type=\"float\" cond=\"B\"/><add name=\"R\" type=\"uint\"/>" ++
    "<add name=\"R\" type=\"float\"/><add name=\"R\" type=\"float\"/></struct></nif>"

/-- The declarations in that schema. -/
def redeclarations : List (String × FieldType) :=
  [("r", { base := "f32", condition := some "B" }), ("r", { base := "u32" }),
    ("r", { base := "f32" }), ("r", { base := "f32" })]

/-- A tree with that schema. -/
def redeclaringTree : FileTree :=
  ⟨.ofList [(["nif.xml"], .file redeclaringText.toUTF8)]⟩

/-- Options that read the schema and write nothing. -/
def redeclaringOptions : Options :=
  ⟨"nif.xml", none, none, [], true, 0⟩

/-- The conflict comes first although the object does, and it alone is counted by a run. The other
declarations add a field, are merged and are dropped. -/
theorem diagnostics_redeclaringText :
    ∃ document model summary, Document.parse redeclaringText = .ok document ∧
      ofDocument .default document = .ok model ∧
      answers redeclarations =
        [.inserted, .conflict { base := "f32", condition := some "B" } { base := "u32" }, .merged,
          .dropped] ∧
      model.diagnostics = [.fieldConflict "Ball" "r" "Option<f32>" "u32",
        .unresolvedParent "NiNode" "NiAV"] ∧
      (redeclaringOptions.run : StateM FileTree _).run redeclaringTree =
        (.ok summary, redeclaringTree) ∧
      summary.conflicts = 1 := by
  have hview : ((Document.parse redeclaringText).toOption.bind fun document =>
      (filterEmitted Profile.default.emitsEntry document.entries).toOption.bind fun entries =>
        ((entries.filter Profile.default.declaresFields).mapM
          (readDeclarations .default)).toOption.bind fun sources =>
            (ofDocument .default document).toOption.map fun model =>
              (sources, unresolvedParents model.objects,
                (Bindings.ofModel .default model).toOption.isSome)) =
      some ([("NiNode", []), ("Ball", redeclarations)], [.unresolvedParent "NiNode" "NiAV"],
        true) := by
    decide +kernel
  simp only [Option.bind_eq_some_iff, Option.map_eq_some_iff, toOption_eq_some_iff,
    Prod.mk.injEq, Option.isSome_iff_exists] at hview
  obtain ⟨document, hparse, entries, hentries, sources, hread, model, hmodel, rfl, hparents,
    bindings, hbindings⟩ := hview
  obtain ⟨emitted, found, hemitted, hfound, hdiagnostics, -, hcount⟩ :=
    diagnostics_eq_conflicts_append hmodel
  cases hentries.symm.trans hemitted
  cases hread.symm.trans hfound
  rw [hparents] at hdiagnostics
  have htext : redeclaringTree.readText "nif.xml" = .ok redeclaringText := by
    have hlocation : redeclaringTree.locate "nif.xml" = .ok ["nif.xml"] := by decide +kernel
    exact FileTree.readText_of_node? hlocation (by
      simp [FileTree.node?, redeclaringTree, OrderedMap.get?_ofList])
  have hprofile : redeclaringOptions.profileIn redeclaringTree = .ok .default := by
    rw [Options.profileIn_of_none redeclaringOptions redeclaringTree rfl]
    decide +kernel
  have hrun := Options.run_of_dryRun (rfl : redeclaringOptions.dryRun = true) hprofile
    (ofFileIn_eq_ok_of_parse htext hparse hmodel) hbindings
  exact ⟨document, model, _, hparse, hmodel, by decide +kernel, hdiagnostics, hrun,
    hcount hprofile htext hparse hrun⟩

end Model

end NifBindings
