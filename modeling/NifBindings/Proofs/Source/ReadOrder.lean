import NifBindings.Source.Compound
import NifBindings.Source.NiObject
import NifBindings.Proofs.Field.Outcome
import NifBindings.Proofs.Model.Keeping

/-!
# The order of reading

The reader of a structure reads its fields one after the other, but for those whose guards fail. A
field stands where it was declared first, and what declares it again changes its condition only. So
fields are read in the order of their first declarations, whichever declarations are active in a
file.
-/

namespace NifBindings

variable {α : Type}

/-- The fields that a structure reads in the files of a version, in order. -/
def readOrder (meaning : Meaning α) (version : Version) (fields : List FieldDeclaration) :
    List String :=
  (fields.filter fun field => field.guard.holds meaning version).map FieldDeclaration.name

/-- Whether an entry becomes a structure of this name, with these findings, that declares these
fields. -/
inductive GeneratedFrom (profile : Profile) (model : Model) (entry : Element) :
    String → List Diagnostic → List FieldDeclaration → Prop
  | compound {compound : Compound} {findings : List Diagnostic} {declaration : CompoundDeclaration}
      (hread : Compound.ofElement profile entry = .ok (compound, findings))
      (hdeclaration : compound.declaration profile model = .ok declaration) :
      GeneratedFrom profile model entry compound.name findings declaration.fields
  | object {object : NiObject} {findings : List Diagnostic} {declaration : ObjectDeclaration}
      (hread : NiObject.ofElement profile entry = .ok (object, findings))
      (hdeclaration : object.declaration profile model = .ok declaration) :
      GeneratedFrom profile model entry object.name findings declaration.fields

/-- Whether a declaration is active in the files of a version, and its name is one that is declared
without conflicts and under conditions that can be read. -/
structure IsActive (meaning : Meaning α) (version : Version) (owner : String)
    (findings : List Diagnostic) (declarations : List (String × FieldType))
    (declaration : String × FieldType) : Prop where
  mem : declaration ∈ declarations
  present : declaration.2.isPresent meaning version
  kept : ∀ old new, .fieldConflict owner declaration.1 old new ∉ findings
  readable : ∀ type ∈ declaredUnder declaration.1 declarations,
    ∃ condition, type.conditionExpr = .ok condition

/-- Whether the first declaration of a name has a version. -/
def FirstHas (version : Version) (declarations : List (String × FieldType)) (name : String) :
    Prop :=
  ∃ first range, (declaredUnder name declarations).head? = some first ∧
    first.versionRange = .ok range ∧ range.contains version = true

section Order

variable {κ : Type}

/-- The distinct elements of a list stand in the order of their first places in it. -/
theorem pairwise_idxOf_eraseDups [DecidableEq κ] (list : List κ) :
    list.eraseDups.Pairwise fun a b => list.idxOf a < list.idxOf b := by
  induction list using List.reverseRecOn with
  | nil => exact .nil
  | append_singleton list last ih =>
    have hkept : list.eraseDups.Pairwise
        fun a b => (list ++ [last]).idxOf a < (list ++ [last]).idxOf b := by
      refine ih.imp_of_mem fun {a b} ha hb hlt => ?_
      rwa [List.idxOf_append_of_mem (List.mem_eraseDups.mp ha),
        List.idxOf_append_of_mem (List.mem_eraseDups.mp hb)]
    rw [List.eraseDups_append]
    by_cases hmem : last ∈ list
    · simpa [List.removeAll, hmem] using hkept
    · have hnew : [last].removeAll list = [last] := by simp [List.removeAll, hmem]
      have hsingle : [last].eraseDups = [last] := by simp [List.eraseDups_cons]
      rw [hnew, hsingle, List.pairwise_append]
      refine ⟨hkept, List.pairwise_singleton _ _, fun a ha b hb => ?_⟩
      rw [List.mem_singleton] at hb
      subst hb
      have ha : a ∈ list := List.mem_eraseDups.mp ha
      rw [List.idxOf_append_of_mem ha, List.idxOf_append_of_notMem hmem]
      have hlt := List.idxOf_lt_length_of_mem ha
      omega

/-- Two distinct elements of a list stand in one order or the other. -/
theorem sublist_or_sublist {list : List κ} {a b : κ} (ha : a ∈ list) (hb : b ∈ list)
    (hne : a ≠ b) : [a, b].Sublist list ∨ [b, a].Sublist list := by
  obtain ⟨front, back, rfl⟩ := List.append_of_mem ha
  rcases List.mem_append.mp hb with hb | hb
  · exact .inr ((List.singleton_sublist.mpr hb).append
      (List.singleton_sublist.mpr List.mem_cons_self))
  · rcases List.mem_cons.mp hb with hb | hb
    · exact absurd hb.symm hne
    · exact .inl (((List.singleton_sublist.mpr hb).cons_cons a).trans
        (List.sublist_append_right front _))

/-- Of a list whose elements stand in the order of some places, two elements stand in this order. -/
theorem sublist_iff_of_pairwise {list : List κ} {place : κ → Nat} {a b : κ}
    (h : list.Pairwise fun a b => place a < place b) (ha : a ∈ list) (hb : b ∈ list) :
    [a, b].Sublist list ↔ place a < place b := by
  rw [List.pairwise_iff_forall_sublist] at h
  refine ⟨fun hsub => h hsub, fun hlt => ?_⟩
  have hne : a ≠ b := by
    rintro rfl
    exact Nat.lt_irrefl _ hlt
  rcases sublist_or_sublist ha hb hne with hsub | hsub
  · exact hsub
  · have hgt := h hsub
    omega

end Order

section Declarations

variable {profile : Profile} {model : Model} {owner : String} {entry : Element}
  {findings : List Diagnostic} {fields : List FieldDeclaration}

/-- The fields of a generated structure are those that the declarations of its entry leave, and the
findings about it are their conflicts. -/
theorem GeneratedFrom.exists_declaredFields
    (h : GeneratedFrom profile model entry owner findings fields) :
    ∃ declarations, declaredFields profile owner entry = .ok declarations ∧
      findings = conflicts owner declarations ∧
      (FieldMap.ofDeclarations declarations).declarations profile model = .ok fields := by
  cases h with
  | compound hread hdeclaration =>
    obtain ⟨declarations, hdeclared, hfields, hfindings⟩ :=
      readFields_eq_ok_iff.mp (Compound.exists_of_ofElement hread).2
    obtain ⟨fields, hmade, hsame⟩ := bind_eq_ok_iff.mp hdeclaration
    cases hsame
    exact ⟨declarations, hdeclared, hfindings, hfields ▸ hmade⟩
  | object hread hdeclaration =>
    obtain ⟨declarations, hdeclared, hfields, hfindings⟩ :=
      readFields_eq_ok_iff.mp (NiObject.exists_of_ofElement hread).2.2
    obtain ⟨fields, hmade, hsame⟩ := bind_eq_ok_iff.mp hdeclaration
    cases hsame
    exact ⟨declarations, hdeclared, hfindings, hfields ▸ hmade⟩

/-- A declared field has its name, and the guard of its type. -/
theorem FieldType.guard_of_declaration {name : String} {type : FieldType} {field : FieldDeclaration}
    (h : type.declaration profile model name = .ok field) :
    field.name = name ∧ type.guard = .ok field.guard := by
  obtain ⟨guard, hguard, h⟩ := bind_eq_ok_iff.mp h
  obtain ⟨count, -, h⟩ := bind_eq_ok_iff.mp h
  cases h
  exact ⟨rfl, hguard⟩

/-- The fields of a map are declared in the order of their names. -/
theorem FieldMap.map_name_of_declarations {map : FieldMap}
    (h : map.declarations profile model = .ok fields) :
    fields.map FieldDeclaration.name = map.keys := by
  have hall := forall₂_of_mapM h
  rw [OrderedMap.keys]
  clear h
  generalize map.entries = entries at hall ⊢
  induction hall with
  | nil => rfl
  | cons hfirst _ ih =>
    rw [List.map_cons, List.map_cons, ih, (FieldType.guard_of_declaration hfirst).1]

/-- The fields that are read stand in the order of the names of their map. -/
theorem readOrder_sublist {map : FieldMap} (h : map.declarations profile model = .ok fields)
    (meaning : Meaning α) (version : Version) :
    (readOrder meaning version fields).Sublist map.keys := by
  rw [← FieldMap.map_name_of_declarations h]
  exact (List.filter_sublist).map FieldDeclaration.name

/-- A field is read exactly if it is present. -/
theorem mem_readOrder_iff {map : FieldMap} (h : map.declarations profile model = .ok fields)
    {meaning : Meaning α} {version : Version} {name : String} :
    name ∈ readOrder meaning version fields ↔
      ∃ type, map.get? name = some type ∧ type.isPresent meaning version := by
  unfold readOrder FieldType.isPresent
  simp only [List.mem_map, List.mem_filter, OrderedMap.get?_eq_some_iff]
  constructor
  · rintro ⟨field, ⟨hfield, hholds⟩, rfl⟩
    obtain ⟨⟨name, type⟩, hentry, hdeclaration⟩ := exists_of_mem_mapM h hfield
    obtain ⟨hname, hguard⟩ := FieldType.guard_of_declaration hdeclaration
    rw [hname]
    exact ⟨type, hentry, field.guard, hguard, hholds⟩
  · rintro ⟨type, hentry, guard, hguard, hholds⟩
    obtain ⟨field, hfield, hdeclaration⟩ := exists_mem_of_mapM h hentry
    obtain ⟨hname, hsame⟩ := FieldType.guard_of_declaration hdeclaration
    cases hguard.symm.trans hsame
    exact ⟨field, ⟨hfield, hholds⟩, hname⟩

end Declarations

namespace IsActive

variable {profile : Profile} {entry : Element} {owner : String} {meaning : Meaning α}
  {version : Version} {declarations : List (String × FieldType)} {declaration : String × FieldType}

/-- The field that is kept for an active declaration has a condition that holds. -/
theorem conditionHolds_kept {first : FieldType} {later : List FieldType}
    (h : IsActive meaning version owner (conflicts owner declarations) declarations declaration)
    (hname : declaredUnder declaration.1 declarations = first :: later) :
    FieldType.conditionHolds meaning
      { first with condition := joinedCondition (first :: later.filter first.matchesShape) } := by
  rcases joined_or_unconditional h.mem h.kept hname with hjoined | hnone
  · obtain ⟨joined, hread, htruth⟩ := exists_joinedCondition first
      (later.filter first.matchesShape) fun type htype => h.readable type (by
        rw [hname]
        exact List.cons_subset_cons first (List.filter_subset_self later) htype)
    obtain ⟨guard, hguard, hholds⟩ := h.present
    rw [Guard.holds, Bool.and_eq_true] at hholds
    exact ⟨joined, hread, (htruth meaning).mpr
      ⟨declaration.2, hjoined, guard.condition, (FieldType.guard_eq_ok_iff.mp hguard).1, hholds.2⟩⟩
  · exact ⟨none, by rw [FieldType.conditionExpr, hnone]; rfl, rfl⟩

/-- The field that is kept for an active declaration is present exactly if the first declaration of
its name has the version. -/
theorem isPresent_iff (hdeclared : declaredFields profile owner entry = .ok declarations)
    (h : IsActive meaning version owner (conflicts owner declarations) declarations declaration) :
    (∃ type, (FieldMap.ofDeclarations declarations).get? declaration.1 = some type ∧
        type.isPresent meaning version) ↔ FirstHas version declarations declaration.1 := by
  unfold FirstHas
  rw [FieldMap.get?_ofDeclarations]
  cases hname : declaredUnder declaration.1 declarations with
  | nil => simp [collapsed?]
  | cons first later =>
    have hfirst : first ∈ declaredUnder declaration.1 declarations := by simp [hname]
    obtain ⟨other, hother, rfl⟩ := List.mem_map.mp hfirst
    obtain ⟨range, hrange⟩ :=
      exists_versionRange_of_declaredFields hdeclared (List.mem_filter.mp hother).1
    have hcondition := h.conditionHolds_kept hname
    simp only [collapsed?, Option.some.injEq, exists_eq_left', List.head?_cons]
    have hkept : FieldType.versionRange { other.2 with
        condition := joinedCondition (other.2 :: later.filter other.2.matchesShape) } = .ok range :=
      hrange
    rw [FieldType.isPresent_iff hkept]
    simp [hcondition, hrange]

end IsActive

/-- Fields are read in the order of their first declarations. Of a name that has an active
declaration and was declared without conflicts, the field is read exactly if the first declaration
of the name has the version of the file. Where two such fields are read, the one whose name was
declared first comes first. So they come in the order of the active declarations exactly if the
first declarations of their names stand in this order too. -/
theorem GeneratedFrom.sublist_readOrder_iff {profile : Profile} {model : Model} {entry : Element}
    {owner : String} {findings : List Diagnostic} {fields : List FieldDeclaration}
    {declarations : List (String × FieldType)} {meaning : Meaning α} {version : Version}
    {f g : String × FieldType}
    (hgenerated : GeneratedFrom profile model entry owner findings fields)
    (hdeclared : declaredFields profile owner entry = .ok declarations)
    (hf : IsActive meaning version owner findings declarations f)
    (hg : IsActive meaning version owner findings declarations g) :
    (f.1 ∈ readOrder meaning version fields ↔ FirstHas version declarations f.1) ∧
      (g.1 ∈ readOrder meaning version fields ↔ FirstHas version declarations g.1) ∧
      (f.1 ∈ readOrder meaning version fields → g.1 ∈ readOrder meaning version fields →
        ([f.1, g.1].Sublist (readOrder meaning version fields) ↔
          (declarations.map Prod.fst).idxOf f.1 < (declarations.map Prod.fst).idxOf g.1)) := by
  obtain ⟨declared, hread, rfl, hfields⟩ := hgenerated.exists_declaredFields
  cases hdeclared.symm.trans hread
  have hplaces : (readOrder meaning version fields).Pairwise fun a b =>
      (declarations.map Prod.fst).idxOf a < (declarations.map Prod.fst).idxOf b := by
    refine List.Pairwise.sublist (readOrder_sublist hfields meaning version) ?_
    rw [FieldMap.keys_ofDeclarations]
    exact pairwise_idxOf_eraseDups _
  refine ⟨?_, ?_, fun hfread hgread => sublist_iff_of_pairwise hplaces hfread hgread⟩
  · rw [mem_readOrder_iff hfields, hf.isPresent_iff hdeclared]
  · rw [mem_readOrder_iff hfields, hg.isPresent_iff hdeclared]

/-- A meaning in which a box is read, and no sphere. -/
def boxMeaning : Meaning Bool where
  numeral _ := true
  reference target := target = .field "is_box"
  unary _ value := !value
  binary op a b := if op = .or then a || b else a && b
  truth value := value
  truth_or _ _ := rfl

/-- An entry with a field that is declared in front of another one under one condition, and behind
it under the condition of the other. -/
def reorderedEntry : Element :=
  compoundElement [fieldElement [("cond", "Is Sphere")],
    fieldElement [("name", "Center"), ("cond", "Is Box")], fieldElement [("cond", "Is Box")]]

/-- The declaration in front. -/
def sphereRadius : String × FieldType :=
  ("radius", { base := "f32", condition := some "Is Sphere" })

/-- The declaration of the other field. -/
def boxCenter : String × FieldType :=
  ("center", { base := "f32", condition := some "Is Box" })

/-- The declaration behind. -/
def boxRadius : String × FieldType :=
  ("radius", { base := "f32", condition := some "Is Box" })

/-- These are the declarations of the entry. -/
theorem declaredFields_reorderedEntry :
    declaredFields .default "Bounds" reorderedEntry = .ok [sphereRadius, boxCenter, boxRadius] := by
  decide +kernel

/-- In a box the last two declarations are active. -/
theorem isActive_reorderedEntry {declaration : String × FieldType}
    (h : declaration ∈ [boxCenter, boxRadius]) :
    IsActive boxMeaning ⟨20, 2, 0, 7⟩ "Bounds" [] [sphereRadius, boxCenter, boxRadius]
      declaration where
  mem := List.mem_cons_of_mem _ h
  present := by
    have hall : ∀ declaration ∈ [boxCenter, boxRadius],
        declaration.2.isPresent boxMeaning ⟨20, 2, 0, 7⟩ := by
      decide +kernel
    exact hall declaration h
  kept := nofun
  readable := by
    have hall : ∀ declaration ∈ [sphereRadius, boxCenter, boxRadius],
        declaration.2.conditionExpr.toOption.isSome = true := by
      decide +kernel
    intro type htype
    obtain ⟨other, hother, rfl⟩ := List.mem_map.mp htype
    obtain ⟨condition, hcondition⟩ :=
      Option.isSome_iff_exists.mp (hall other (List.mem_filter.mp hother).1)
    exact ⟨condition, toOption_eq_some_iff.mp hcondition⟩

/-- The entry becomes a structure, without a finding, that reads the radius first in a box. -/
theorem exists_generatedFrom_reorderedEntry :
    ∃ model fields, Model.ofDocument .default ⟨none, [reorderedEntry]⟩ = .ok model ∧
      GeneratedFrom .default model reorderedEntry "Bounds" [] fields ∧
      readOrder boxMeaning ⟨20, 2, 0, 7⟩ fields = ["radius", "center"] := by
  have hview : ((Model.ofDocument .default ⟨none, [reorderedEntry]⟩).toOption.bind fun model =>
      (Compound.ofElement .default reorderedEntry).toOption.bind fun read =>
        (read.1.declaration .default model).toOption.map fun declaration =>
          (read.1.name, read.2, readOrder boxMeaning ⟨20, 2, 0, 7⟩ declaration.fields)) =
      some ("Bounds", [], ["radius", "center"]) := by
    decide +kernel
  obtain ⟨model, hmodel, hview⟩ := Option.bind_eq_some_iff.mp hview
  obtain ⟨⟨compound, findings⟩, hread, hview⟩ := Option.bind_eq_some_iff.mp hview
  obtain ⟨declaration, hdeclaration, hview⟩ := Option.map_eq_some_iff.mp hview
  obtain ⟨hname, hfindings, horder⟩ : compound.name = "Bounds" ∧ findings = [] ∧
      readOrder boxMeaning ⟨20, 2, 0, 7⟩ declaration.fields = ["radius", "center"] := by
    simpa using hview
  rw [toOption_eq_some_iff] at hmodel hread hdeclaration
  have hgenerated := GeneratedFrom.compound hread hdeclaration
  rw [hname, hfindings] at hgenerated
  exact ⟨model, declaration.fields, hmodel, hgenerated, horder⟩

/-- In a box both fields are read, in the order of their first declarations. -/
theorem GeneratedFrom.sublist_readOrder_reorderedEntry :
    ∃ model fields, GeneratedFrom .default model reorderedEntry "Bounds" [] fields ∧
      "radius" ∈ readOrder boxMeaning ⟨20, 2, 0, 7⟩ fields ∧
      "center" ∈ readOrder boxMeaning ⟨20, 2, 0, 7⟩ fields ∧
      ["radius", "center"].Sublist (readOrder boxMeaning ⟨20, 2, 0, 7⟩ fields) := by
  obtain ⟨model, fields, -, hgenerated, -⟩ := exists_generatedFrom_reorderedEntry
  obtain ⟨hradius, hcenter, horder⟩ := hgenerated.sublist_readOrder_iff
    declaredFields_reorderedEntry (isActive_reorderedEntry (by simp : boxRadius ∈ _))
    (isActive_reorderedEntry (by simp : boxCenter ∈ _))
  have hfirst (declaration : String × FieldType) (h : declaration ∈ [sphereRadius, boxCenter]) :
      FirstHas ⟨20, 2, 0, 7⟩ [sphereRadius, boxCenter, boxRadius] declaration.1 := by
    rcases List.mem_pair.mp h with rfl | rfl
    · exact ⟨sphereRadius.2, {}, rfl, rfl, rfl⟩
    · exact ⟨boxCenter.2, {}, rfl, rfl, rfl⟩
  have hradius := hradius.mpr (hfirst sphereRadius (by simp))
  have hcenter := hcenter.mpr (hfirst boxCenter (by simp))
  exact ⟨model, fields, hgenerated, hradius, hcenter,
    (horder hradius hcenter).mpr (by decide +kernel)⟩

/-- No two declarations of one name are active in a box, and the active declaration of the center
stands in front of that of the radius. The radius is read first all the same, because another
declaration of it, which is not active, stands in front of both. -/
theorem not_sublist_readOrder_reorderedEntry :
    ∃ model fields declarations, Model.ofDocument .default ⟨none, [reorderedEntry]⟩ = .ok model ∧
      GeneratedFrom .default model reorderedEntry "Bounds" [] fields ∧
      declaredFields .default "Bounds" reorderedEntry = .ok declarations ∧
      declarations.Pairwise (fun a b => a.1 = b.1 →
        ¬(a.2.isPresent boxMeaning ⟨20, 2, 0, 7⟩ ∧ b.2.isPresent boxMeaning ⟨20, 2, 0, 7⟩)) ∧
      IsActive boxMeaning ⟨20, 2, 0, 7⟩ "Bounds" [] declarations boxCenter ∧
      IsActive boxMeaning ⟨20, 2, 0, 7⟩ "Bounds" [] declarations boxRadius ∧
      [boxCenter, boxRadius].Sublist declarations ∧
      ¬[boxCenter.1, boxRadius.1].Sublist (readOrder boxMeaning ⟨20, 2, 0, 7⟩ fields) := by
  obtain ⟨model, fields, hmodel, hgenerated, horder⟩ := exists_generatedFrom_reorderedEntry
  refine ⟨model, fields, _, hmodel, hgenerated, declaredFields_reorderedEntry, by decide +kernel,
    isActive_reorderedEntry (by simp), isActive_reorderedEntry (by simp),
    List.sublist_cons_self _ _, ?_⟩
  rw [horder]
  decide

end NifBindings
