import NifBindings.Proofs.Field.Isolation
import NifBindings.Proofs.Source.Forwarding

/-!
# Annotations of fields

Whether another field counts the elements, how stored bytes become truth values, whether a field may
be absent and what its reader is given are decided apart from the type that is declared. All of them
agree with it: a field is counted exactly if its elements stand in a sequence, it is guarded exactly
if it may be absent, and bytes are stored in the shape in which truth values are declared.
-/

namespace NifBindings

/-- A text begins with its front. -/
theorem Text.beginsWith_append (front back : String) :
    Text.beginsWith (front ++ back) front = true := by
  simp [Text.beginsWith]

/-- A text does not begin with two words of which neither goes on as the other. -/
theorem Text.beginsWith_eq_false {text word other : String} (h : Text.beginsWith text word = true)
    (hword : Text.beginsWith word other = false) (hother : Text.beginsWith other word = false) :
    Text.beginsWith text other = false := by
  simp only [Text.beginsWith, ← Bool.not_eq_true, List.isPrefixOf_iff_prefix] at h hword hother ⊢
  intro hboth
  rcases List.prefix_or_prefix_of_prefix h hboth with hprefix | hprefix
  · exact hother hprefix
  · exact hword hprefix

/-- The kinds of lines that a declared field is written in. -/
inductive FieldLine where
  | count
  | mapping
  | guard
  | arguments
  | declaration
deriving DecidableEq, Repr

namespace FieldLine

/-- What every line of a kind begins with. -/
def opening : FieldLine → String
  | .count => "    #[br(count = "
  | .mapping => "    #[br(map = "
  | .guard => "    #[br(if("
  | .arguments => "    #[br(args"
  | .declaration => "    pub "

/-- The lines of a kind among some lines. -/
def among (kind : FieldLine) (lines : List String) : List String :=
  lines.filter (Text.beginsWith · kind.opening)

@[simp] theorem among_append (kind : FieldLine) (a b : List String) :
    kind.among (a ++ b) = kind.among a ++ kind.among b :=
  List.filter_append a b

/-- Lines that begin as those of a kind are of this kind and of no other. -/
theorem among_of_opening {other : FieldLine} {lines : List String}
    (h : ∀ line ∈ lines, Text.beginsWith line other.opening = true) (kind : FieldLine) :
    kind.among lines = if kind = other then lines else [] := by
  unfold among
  split
  next hsame =>
    rw [hsame]
    exact List.filter_eq_self.mpr h
  next hdiffer =>
    have hopenings : Text.beginsWith other.opening kind.opening = false ∧
        Text.beginsWith kind.opening other.opening = false := by
      revert hdiffer
      cases kind <;> cases other <;> decide
    rw [List.filter_eq_nil_iff]
    intro line hline
    simp [Text.beginsWith_eq_false (h line hline) hopenings.1 hopenings.2]

end FieldLine

namespace FieldDeclaration

/-- The lines of a kind that a declared field is written in. -/
def linesOf (field : FieldDeclaration) : FieldLine → List String
  | .count => (field.count.map countLine).toList
  | .mapping => (field.mapping.map mappingLine).toList
  | .guard => (field.guard.render?.map guardLine).toList
  | .arguments => (field.arguments.map (argumentsLine field.extent)).toList
  | .declaration => [field.declarationLine]

/-- A declared field is written kind by kind. -/
theorem lines_eq_flatMap (field : FieldDeclaration) :
    field.lines =
      [.count, .mapping, .guard, .arguments, .declaration].flatMap field.linesOf := by
  simp [lines, linesOf]

/-- The arguments of a reader go to the elements of a counted sequence, and to nothing else. -/
theorem beginsWith_argumentsLine (extent : Extent) (arguments : ReaderArguments) :
    Text.beginsWith (argumentsLine extent arguments) "    #[br(args" = true ∧
      (Text.beginsWith (argumentsLine extent arguments) "    #[br(args \x7b inner: (" = true ↔
        ∃ expression, extent = .counted expression) := by
  have hinner : "    #[br(args \x7b inner: (" = "    #[br(args" ++ " \x7b inner: (" := by decide
  have houter : "    #[br(args(" = "    #[br(args" ++ "(" := by decide
  unfold argumentsLine
  split
  · refine ⟨?_, iff_of_true ?_ ⟨_, rfl⟩⟩
    · rw [hinner, String.append_assoc, String.append_assoc]
      exact Text.beginsWith_append _ _
    · rw [String.append_assoc]
      exact Text.beginsWith_append _ _
  next hextent =>
    have hopening : Text.beginsWith ("    #[br(args(" ++ (arguments.render ++ "))]"))
        "    #[br(args(" = true :=
      Text.beginsWith_append _ _
    rw [String.append_assoc]
    refine ⟨?_, iff_of_false ?_ fun ⟨expression, hcounted⟩ => hextent expression hcounted⟩
    · rw [houter, String.append_assoc]
      exact Text.beginsWith_append _ _
    · rw [Bool.not_eq_true]
      exact Text.beginsWith_eq_false hopening (by decide) (by decide)

/-- The lines of a kind have its opening. -/
theorem opening_of_mem_linesOf {field : FieldDeclaration} {kind : FieldLine} {line : String}
    (h : line ∈ field.linesOf kind) : Text.beginsWith line kind.opening = true := by
  cases kind with
  | count =>
    obtain ⟨count, -, rfl⟩ := Option.map_eq_some_iff.mp (Option.mem_toList.mp h)
    unfold countLine
    rw [String.append_assoc]
    exact Text.beginsWith_append _ _
  | mapping =>
    obtain ⟨mapping, -, rfl⟩ := Option.map_eq_some_iff.mp (Option.mem_toList.mp h)
    unfold mappingLine
    rw [String.append_assoc]
    exact Text.beginsWith_append _ _
  | guard =>
    obtain ⟨guard, -, rfl⟩ := Option.map_eq_some_iff.mp (Option.mem_toList.mp h)
    unfold guardLine
    rw [String.append_assoc]
    exact Text.beginsWith_append _ _
  | arguments =>
    obtain ⟨arguments, -, rfl⟩ := Option.map_eq_some_iff.mp (Option.mem_toList.mp h)
    exact (beginsWith_argumentsLine field.extent arguments).1
  | declaration =>
    rw [List.mem_singleton.mp h]
    unfold declarationLine
    simp only [String.append_assoc]
    exact Text.beginsWith_append _ _

/-- The lines of a kind among those of a declared field. -/
theorem among_lines (field : FieldDeclaration) (kind : FieldLine) :
    kind.among field.lines = field.linesOf kind := by
  have hkinds (other : FieldLine) :
      kind.among (field.linesOf other) = if kind = other then field.linesOf other else [] :=
    FieldLine.among_of_opening (fun _ => opening_of_mem_linesOf) kind
  rw [lines_eq_flatMap]
  simp only [List.flatMap_cons, List.flatMap_nil, List.append_nil, FieldLine.among_append, hkinds]
  cases kind <;> simp

/-- A field may be absent exactly if it has a guard. -/
theorem typeText_cases (field : FieldDeclaration) :
    (field.guard.render? = none ∧ field.typeText = field.extent.wrap field.inner) ∨
      (∃ guard, field.guard.render? = some guard) ∧
        field.typeText = optionalText (field.extent.wrap field.inner) := by
  unfold typeText
  cases field.guard.render? with
  | none => exact .inl ⟨rfl, rfl⟩
  | some guard => exact .inr ⟨⟨guard, rfl⟩, rfl⟩

end FieldDeclaration

/-- The text of an array. -/
def arrayText (inner count : String) : String :=
  "[" ++ inner ++ "; " ++ count ++ "]"

/-- The text of a sequence. -/
def sequenceText (inner : String) : String :=
  "Vec<" ++ inner ++ ">"

/-- Whether a declared type holds a sequence of an inner type, which may be absent. -/
def HoldsSequence (inner declared : String) : Prop :=
  declared = sequenceText inner ∨ declared = optionalText (sequenceText inner)

section Shapes

variable {inner : String}

/-- Something around a text makes it another one. -/
theorem ne_append_append {front back text : String} (hfront : front ≠ "") :
    text ≠ front ++ text ++ back := by
  intro h
  have hlength := congrArg (fun text : String => text.toList.length) h
  have hpositive : front.toList.length ≠ 0 := by simpa using hfront
  simp only [String.toList_append, List.length_append] at hlength
  omega

/-- What may be absent is not what is there. -/
theorem optionalText_ne (text : String) : optionalText text ≠ text :=
  (ne_append_append (by decide)).symm

/-- What may be absent is told from the text for it. -/
theorem optionalText_inj {text other : String} (h : optionalText text = optionalText other) :
    text = other := by
  simpa [optionalText] using h

/-- A sequence is not the same as what may be absent. -/
theorem optionalText_ne_sequenceText (text other : String) :
    optionalText text ≠ sequenceText other := by
  intro h
  have hhead := congrArg (fun text : String => text.toList.head?) h
  simp [optionalText, sequenceText] at hhead

/-- The text of a type is that of a sequence of its inner type exactly if it is counted. -/
theorem wrap_eq_sequenceText_iff {extent : Extent} :
    extent.wrap inner = sequenceText inner ↔ ∃ expression, extent = .counted expression := by
  constructor
  · intro h
    cases extent with
    | single => exact absurd h (ne_append_append (by decide))
    | literal first second =>
      have hhead := congrArg (fun text : String => text.toList.head?) h
      cases second <;> simp [Extent.wrap, sequenceText] at hhead
    | counted expression => exact ⟨expression, rfl⟩
  · rintro ⟨expression, rfl⟩
    rfl

/-- The text of a type with a literal count is that of an array. -/
theorem exists_wrap_eq_arrayText (first : String) (second : Option String) :
    ∃ count, ∀ inner, (Extent.literal first second).wrap inner = arrayText inner count := by
  cases second with
  | none => exact ⟨first, fun inner => rfl⟩
  | some second =>
    refine ⟨first ++ " + " ++ second, fun inner => ?_⟩
    simp only [Extent.wrap, arrayText, String.append_assoc]

/-- The text of a type is never that of a sequence of its inner type that may be absent. -/
theorem wrap_ne_optionalText {extent : Extent} :
    extent.wrap inner ≠ optionalText (sequenceText inner) := by
  intro h
  cases extent with
  | single =>
    have hjoined : optionalText (sequenceText inner) = "Option<Vec<" ++ inner ++ ">>" := by
      rw [← String.toList_inj]
      simp [optionalText, sequenceText]
    rw [hjoined] at h
    exact ne_append_append (by decide) h
  | literal first second =>
    have hhead := congrArg (fun text : String => text.toList.head?) h
    cases second <;> simp [Extent.wrap, optionalText] at hhead
  | counted expression => exact optionalText_ne_sequenceText _ _ h.symm

/-- A declared type holds a sequence of its inner type exactly if it is counted, whether or not it
may be absent. -/
theorem holdsSequence_iff {extent : Extent} {declared : String}
    (h : declared = extent.wrap inner ∨ declared = optionalText (extent.wrap inner)) :
    HoldsSequence inner declared ↔ ∃ expression, extent = .counted expression := by
  rw [← wrap_eq_sequenceText_iff, HoldsSequence]
  rcases h with rfl | rfl
  · exact or_iff_left wrap_ne_optionalText
  · rw [or_iff_right (optionalText_ne_sequenceText _ _)]
    exact ⟨optionalText_inj, congrArg optionalText⟩

end Shapes

/-- What is read for a field: one value, an array of values, or a sequence of them. -/
inductive Held (α : Type) where
  | one (value : α)
  | array (values : List α)
  | sequence (values : List α)

/-- A function applied to everything that is held. -/
def Held.map {α β : Type} (f : α → β) : Held α → Held β
  | .one value => .one (f value)
  | .array values => .array (values.map f)
  | .sequence values => .sequence (values.map f)

/-- Whether what is held has the shape of an extent, where the literals of an array stand for some
numbers. -/
inductive Held.Fills {α : Type} (number : String → Nat) : Extent → Held α → Prop
  | one (value : α) : Fills number .single (.one value)
  | array {first : String} {second : Option String} {values : List α}
      (hlength : values.length = number first + (second.map number).getD 0) :
      Fills number (.literal first second) (.array values)
  | sequence (expression : String) (values : List α) :
      Fills number (.counted expression) (.sequence values)

/-- What the closures of the generated sources do with bytes. A closure with this text takes a value
of the first type and yields one of the second: a byte that is not nought becomes true, in an array
and in a sequence each byte in its place. -/
inductive ConvertsBytes : String → String → String → Held UInt8 → Held Bool → Prop
  | one (byte : UInt8) :
      ConvertsBytes "|b: u8| b != 0" "u8" "bool" (.one byte) (.one (byte != 0))
  | array (count : String) (bytes : List UInt8) :
      ConvertsBytes ("|a: " ++ arrayText "u8" count ++ "| a.map(|b| b != 0)")
        (arrayText "u8" count) (arrayText "bool" count) (.array bytes)
        (.array (bytes.map (· != 0)))
  | sequence (bytes : List UInt8) :
      ConvertsBytes ("|v: " ++ sequenceText "u8" ++ "| v.into_iter().map(|b| b != 0).collect()")
        (sequenceText "u8") (sequenceText "bool") (.sequence bytes)
        (.sequence (bytes.map (· != 0)))

/-- Another value at every place leaves the shape as it is. -/
theorem Held.Fills.map {α β : Type} {number : String → Nat} {extent : Extent} {held : Held α}
    (h : held.Fills number extent) (f : α → β) : (held.map f).Fills number extent := by
  cases h with
  | one value => exact .one (f value)
  | array hlength => exact .array (by rw [List.length_map, hlength])
  | sequence expression values => exact .sequence expression (values.map f)

namespace FieldType

/-- Truth values without a type argument are stored as bytes in their own shape. -/
theorem exists_convertsBytes {type : FieldType} (hbase : type.base = "bool")
    (hparameter : type.parameter = none) :
    ∃ mapping, type.byteMapping = some mapping ∧
      ∀ (number : String → Nat) (bytes : Held UInt8), bytes.Fills number type.extent →
        ConvertsBytes mapping.render (type.extent.wrap "u8") (type.extent.wrap "bool") bytes
          (bytes.map (· != 0)) := by
  have htruth : type.isTruthValue = true := by rw [isTruthValue, hbase, beq_self_eq_true]
  have hstored : fullText { type with base := "u8" } = type.extent.wrap "u8" := by
    rw [fullText, innerText, hparameter]
    rfl
  unfold byteMapping
  rw [if_pos htruth]
  simp only [hstored]
  cases hextent : type.extent with
  | single =>
    refine ⟨.single, rfl, fun number bytes hbytes => ?_⟩
    cases hbytes
    exact .one _
  | literal first second =>
    refine ⟨.array _, rfl, fun number bytes hbytes => ?_⟩
    cases hbytes
    obtain ⟨count, hcount⟩ := exists_wrap_eq_arrayText first second
    rw [hcount, hcount]
    exact .array count _
  | counted expression =>
    refine ⟨.sequence _, rfl, fun number bytes hbytes => ?_⟩
    cases hbytes
    exact .sequence _

variable {profile : Profile} {model : Model} {name : String} {type : FieldType}
  {field : FieldDeclaration}

/-- What a declared field is made of. -/
theorem parts_of_declaration (h : type.declaration profile model name = .ok field) :
    field.name = name ∧ type.guard = .ok field.guard ∧ type.countExpr = .ok field.count ∧
      field.inner = type.innerText ∧ field.extent = type.extent ∧
      field.mapping = type.byteMapping := by
  obtain ⟨guard, hguard, h⟩ := bind_eq_ok_iff.mp h
  obtain ⟨count, hcount, h⟩ := bind_eq_ok_iff.mp h
  cases h
  exact ⟨rfl, hguard, hcount, rfl, rfl, rfl⟩

/-- An expression counts the elements of a field exactly if its extent says so, and then it is the
length that is read. -/
theorem count_cases {count : Option Expr} (h : type.countExpr = .ok count) :
    (count = none ∧ ∀ text, type.extent ≠ .counted text) ∨
      ∃ text expr, type.extent = .counted text ∧ type.length = some text ∧
        Expr.parse text = .ok expr ∧ count = some expr := by
  unfold countExpr at h
  split at h
  next text hextent =>
    obtain ⟨expr, hparse, rfl⟩ := map_eq_ok_iff.mp h
    have hlength : type.length = some text := by
      unfold extent at hextent
      split at hextent
      · cases hextent
      next length hlength =>
        split at hextent
        · cases hextent
        · rw [hlength, Extent.counted.inj hextent]
    exact .inr ⟨text, expr, hextent, hlength, hparse, rfl⟩
  next hextent =>
    cases h
    exact .inl ⟨rfl, hextent⟩

/-- Annotations agree with the declared type. A declared field has one line that declares it, with
the full text of its type, which may be absent or not. It has an annotation with a count exactly if
its elements stand in a sequence, and the count is the generated text of its length. It has a guard
exactly if it may be absent. Its reader is given arguments exactly if its base type is a compound,
and they go to what is inside exactly if the elements stand in a sequence. Truth values without a
type argument have one mapping, which takes bytes in the declared shape and yields truth values in
this shape, and other base types have none. -/
theorem annotations_agree (h : type.declaration profile model name = .ok field) :
    ∃ declared,
      FieldLine.declaration.among field.lines = ["    pub " ++ name ++ ": " ++ declared ++ ","] ∧
      (declared = type.fullText ∨ declared = optionalText type.fullText) ∧
      (FieldLine.count.among field.lines ≠ [] ↔ HoldsSequence type.innerText declared) ∧
      (∀ line ∈ FieldLine.count.among field.lines, ∃ length generated,
        type.length = some length ∧ Expr.generate length = .ok generated ∧
          line = "    #[br(count = " ++ generated ++ ")]") ∧
      (FieldLine.guard.among field.lines ≠ [] ↔ declared = optionalText type.fullText) ∧
      (FieldLine.arguments.among field.lines ≠ [] ↔ model.compounds.contains type.base = true) ∧
      (∀ line ∈ FieldLine.arguments.among field.lines,
        Text.beginsWith line "    #[br(args \x7b inner: (" = true ↔
          HoldsSequence type.innerText declared) ∧
      (type.base ≠ "bool" → FieldLine.mapping.among field.lines = []) ∧
      (type.base = "bool" → type.parameter = none → type.fullText = type.extent.wrap "bool" ∧
        ∃ closure, FieldLine.mapping.among field.lines = ["    #[br(map = " ++ closure ++ ")]"] ∧
          ∀ (number : String → Nat) (bytes : Held UInt8), bytes.Fills number type.extent →
            ConvertsBytes closure (type.extent.wrap "u8") (type.extent.wrap "bool") bytes
                (bytes.map (· != 0)) ∧
              (bytes.map (· != 0)).Fills number type.extent) := by
  obtain ⟨hname, hguard, hcount, hinner, hextent, hmapping⟩ := parts_of_declaration h
  have hfull : field.extent.wrap field.inner = type.fullText := by rw [hextent, hinner, fullText]
  have htext := field.typeText_cases
  rw [hfull] at htext
  have hdeclared : field.typeText = type.fullText ∨ field.typeText = optionalText type.fullText :=
    htext.imp And.right And.right
  have hsequence := holdsSequence_iff hdeclared
  simp only [FieldDeclaration.among_lines, FieldDeclaration.linesOf]
  refine ⟨field.typeText, ?_, hdeclared, ?_, ?_, ?_, ?_, ?_, ?_, ?_⟩
  · unfold FieldDeclaration.declarationLine
    rw [hname]
  · rw [hsequence]
    rcases count_cases hcount with ⟨hnone, hnot⟩ | ⟨text, expr, hcounted, -, -, hsome⟩
    · simp [hnone, hnot]
    · simp [hsome, hcounted]
  · intro line hline
    obtain ⟨expr, hexpr, rfl⟩ := Option.map_eq_some_iff.mp (Option.mem_toList.mp hline)
    rcases count_cases hcount with ⟨hnone, -⟩ | ⟨text, found, -, hlength, hparse, hsome⟩
    · rw [hnone] at hexpr
      cases hexpr
    · cases hexpr.symm.trans hsome
      exact ⟨text, expr.render, hlength, Expr.generate_eq_ok_iff.mpr ⟨expr, hparse, rfl⟩, rfl⟩
  · rcases htext with ⟨hnone, hplain⟩ | ⟨⟨guard, hguard⟩, hoptional⟩
    · simp [hnone, hplain, (optionalText_ne _).symm]
    · simp [hguard, hoptional]
  · rw [(arguments_of_declaration h).2, readerArguments]
    by_cases hcompound : model.compounds.contains type.base = true
    · rw [if_pos hcompound]
      split <;> simp [hcompound]
    · simp [hcompound]
  · intro line hline
    obtain ⟨arguments, -, rfl⟩ := Option.map_eq_some_iff.mp (Option.mem_toList.mp hline)
    rw [(FieldDeclaration.beginsWith_argumentsLine field.extent arguments).2, hsequence, hextent]
  · intro hbase
    have htruth : type.isTruthValue = false := by rw [isTruthValue, beq_eq_false_iff_ne.mpr hbase]
    rw [hmapping, byteMapping, htruth]
    rfl
  · intro hbase hparameter
    obtain ⟨mapping, hstored, hconverts⟩ := exists_convertsBytes hbase hparameter
    refine ⟨?_, mapping.render, ?_, fun number bytes hbytes => ⟨?_, hbytes.map _⟩⟩
    · rw [fullText, innerText, hparameter, hbase]
    · rw [hmapping, hstored]
      rfl
    · exact hconverts number bytes hbytes

/-- Truth values that another field counts, and which may be absent. -/
def maskType : FieldType :=
  { base := "bool", length := some "Num Bones", condition := some "Has Mask" }

/-- Counted truth values that may be absent are read from a sequence of bytes. -/
theorem annotations_agree_maskType :
    ∃ field, maskType.declaration .default morphModel "mask" = .ok field ∧
      FieldLine.declaration.among field.lines = ["    pub mask: Option<Vec<bool>>,"] ∧
      FieldLine.count.among field.lines ≠ [] ∧ FieldLine.guard.among field.lines ≠ [] ∧
      ∃ closure, FieldLine.mapping.among field.lines = ["    #[br(map = " ++ closure ++ ")]"] ∧
        ConvertsBytes closure "Vec<u8>" "Vec<bool>" (.sequence [0, 2])
          (.sequence [false, true]) := by
  have hview : (maskType.declaration .default morphModel "mask").toOption.map
      (fun field => (FieldLine.guard.among field.lines).isEmpty) = some false := by
    decide +kernel
  obtain ⟨field, hfield, hguarded⟩ := Option.map_eq_some_iff.mp hview
  rw [toOption_eq_some_iff] at hfield
  obtain ⟨declared, hline, -, hcount, -, hguard, -, -, -, hmapping⟩ := annotations_agree hfield
  have hpresent : FieldLine.guard.among field.lines ≠ [] := by simpa using hguarded
  obtain rfl : declared = "Option<Vec<bool>>" := (hguard.mp hpresent).trans (by decide +kernel)
  obtain ⟨-, closure, hclosure, hconverts⟩ := hmapping rfl rfl
  have hextent : maskType.extent = .counted "Num Bones" := by decide +kernel
  rw [hextent] at hconverts
  exact ⟨field, hfield, hline, hcount.mpr (.inr (by decide +kernel)), hpresent, closure, hclosure,
    (hconverts (fun _ => 0) (.sequence [0, 2]) (.sequence "Num Bones" [0, 2])).1⟩

end FieldType

end NifBindings
