import NifBindings.Proofs.Expr.Operand
import NifBindings.Proofs.Field.Collapse

/-!
# Merged conditions

The condition that a field map makes of several declarations can be read whenever each of theirs
can, however many there are. Its generated text is the disjunction of their generated texts in
order, each as an operand beside what the ones before it make.
-/

namespace NifBindings

/-- A disjunction of generated texts from the left, in which both sides of every `||` are
operands. -/
def disjoined (first : String) (rest : List String) : String :=
  rest.foldl (fun joined text => wrapped joined ++ " || " ++ wrapped text) first

/-- The last text of a disjunction stands beside all those before it. -/
theorem disjoined_concat (first : String) (rest : List String) (last : String) :
    disjoined first (rest ++ [last]) =
      wrapped (disjoined first rest) ++ " || " ++ wrapped last := by
  simp [disjoined]

/-- Conditions that can be read are joined to one that generates the disjunction of their texts. -/
theorem generate_leftNested {condition text : String} {conditions texts : List String}
    (hfirst : Expr.generate condition = .ok text)
    (hrest : List.Forall₂ (fun condition text => Expr.generate condition = .ok text)
      conditions texts) :
    Expr.generate (leftNested condition conditions) = .ok (disjoined text texts) := by
  induction hrest generalizing condition text with
  | nil => exact hfirst
  | cons hnext _ ih => exact ih (Expr.generate_joined hfirst hnext)

/-- Declarations that all have a condition have these conditions joined. -/
theorem joinedCondition_eq_leftNested {types : List FieldType} {condition : String}
    {conditions : List String}
    (h : types.map FieldType.condition = (condition :: conditions).map some) :
    joinedCondition types = some (leftNested condition conditions) := by
  have hany : types.any (·.condition.isNone) = false := by
    have hnone : (types.map FieldType.condition).any Option.isNone = false := by simp [h]
    simpa [List.any_map, Function.comp_def] using hnone
  have hfilter : types.filterMap FieldType.condition = condition :: conditions := by
    have hid : types.filterMap FieldType.condition =
        (types.map FieldType.condition).filterMap id := by
      simp [List.filterMap_map]
    rw [hid, h, List.filterMap_map]
    exact List.filterMap_some
  rw [joinedCondition, hany, hfilter]
  rfl

namespace FieldMap

/-- After any declarations the condition that is kept under a name is read as the disjunction of the
conditions that were merged, if each of those can be read. -/
theorem generate_merged {declarations : List (String × FieldType)} {name : String}
    {first : FieldType} {later : List FieldType} {condition text : String}
    {conditions texts : List String}
    (hname : declaredUnder name declarations = first :: later)
    (hconditions : (first :: later.filter first.matchesShape).map FieldType.condition =
      (condition :: conditions).map some)
    (htexts : List.Forall₂ (fun condition text => Expr.generate condition = .ok text)
      (condition :: conditions) (text :: texts)) :
    ∃ kept, (ofDeclarations declarations).get? name = some kept ∧
      kept.condition = some (leftNested condition conditions) ∧
      Expr.generate (leftNested condition conditions) = .ok (disjoined text texts) ∧
      ∀ front last, texts = front ++ [last] →
        disjoined text texts = wrapped (disjoined text front) ++ " || " ++ wrapped last := by
  obtain ⟨hfirst, hrest⟩ := List.forall₂_cons.mp htexts
  have hkept : (ofDeclarations declarations).get? name = some { first with
      condition := joinedCondition (first :: later.filter first.matchesShape) } := by
    rw [get?_ofDeclarations, hname]
    rfl
  refine ⟨_, hkept, joinedCondition_eq_leftNested hconditions, generate_leftNested hfirst hrest, ?_⟩
  rintro front last rfl
  exact disjoined_concat text front last

/-- A field that is declared under three conditions, with another one of that name in between. -/
def thriceDeclared : List (String × FieldType) :=
  [("radius", { base := "f32", condition := some "!(Flags #BITAND# 1)" }),
    ("center", { base := "Vector3" }),
    ("radius", { base := "f32", condition := some "User Version #GTE# 10.1" }),
    ("radius", { base := "u16", condition := some "Is Short" }),
    ("radius", { base := "f32", condition := some "1.2 #OR# A" })]

/-- Unary operators, version values and a disjunction that begins with one stay apart. -/
theorem generate_merged_thriceDeclared :
    ∃ kept, (ofDeclarations thriceDeclared).get? "radius" = some kept ∧
      kept.condition =
        some "((!(Flags #BITAND# 1)) #OR# (User Version #GTE# 10.1)) #OR# (1.2 #OR# A)" ∧
      Expr.generate
          "((!(Flags #BITAND# 1)) #OR# (User Version #GTE# 10.1)) #OR# (1.2 #OR# A)" =
        .ok ("((!(flags & 1)) || (user_version >= FileVersion(10, 1))) || " ++
          "FileVersion(1, 2) || a") := by
  have hflags : matchShape? "!(Flags #BITAND# 1)".toList =
      some ⟨.parenthesized, [.not], "Flags".toList, .symbolic .bitAnd, "1".toList⟩ := by
    decide +kernel
  have hversion : matchShape? "User Version #GTE# 10.1".toList =
      some ⟨.bare, [], "User Version".toList, .symbolic .ge, "10.1".toList⟩ := by
    decide +kernel
  have hsum : matchShape? "1.2 #OR# A".toList =
      some ⟨.bare, [], "1.2".toList, .symbolic .or, "A".toList⟩ := by
    decide +kernel
  have hreads {text generated : String} {expr : Expr} (h : Expr.Reads text.toList expr)
      (hrender : expr.render = generated) : Expr.generate text = .ok generated :=
    Expr.generate_eq_ok_iff.mpr ⟨expr, Expr.parseChars_eq_ok_iff.mpr h, hrender⟩
  have htexts : List.Forall₂ (fun condition text => Expr.generate condition = .ok text)
      ["!(Flags #BITAND# 1)", "User Version #GTE# 10.1", "1.2 #OR# A"]
      ["!(flags & 1)", "user_version >= FileVersion(10, 1)", "FileVersion(1, 2) || a"] := by
    refine .cons ?_ (.cons ?_ (.cons ?_ .nil))
    · exact hreads
        (.node hflags (by decide) (.leaf (by decide +kernel)) (.leaf (by decide +kernel)))
        (by decide +kernel)
    · exact hreads
        (.node hversion (by decide) (.leaf (by decide +kernel)) (.leaf (by decide +kernel)))
        (by decide +kernel)
    · exact hreads (.node hsum (by decide) (.leaf (by decide +kernel)) (.leaf (by decide +kernel)))
        (by decide +kernel)
  have hname : declaredUnder "radius" thriceDeclared =
      [{ base := "f32", condition := some "!(Flags #BITAND# 1)" },
        { base := "f32", condition := some "User Version #GTE# 10.1" },
        { base := "u16", condition := some "Is Short" },
        { base := "f32", condition := some "1.2 #OR# A" }] := rfl
  obtain ⟨kept, hkept, hcondition, hgenerate, _⟩ := generate_merged hname (by decide) htexts
  have hjoined : leftNested "!(Flags #BITAND# 1)" ["User Version #GTE# 10.1", "1.2 #OR# A"] =
      "((!(Flags #BITAND# 1)) #OR# (User Version #GTE# 10.1)) #OR# (1.2 #OR# A)" := by
    decide +kernel
  rw [hjoined] at hcondition hgenerate
  exact ⟨kept, hkept, hcondition, hgenerate.trans (congrArg Except.ok (by decide +kernel))⟩

end FieldMap

end NifBindings
