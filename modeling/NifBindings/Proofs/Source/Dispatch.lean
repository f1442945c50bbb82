import NifBindings.Bindings
import NifBindings.Proofs.Model.Reading

/-!
# Names of blocks

The generated reader chooses a variant by a match on the name of a block, and a second match names
the variant again. Both are read here as the compiler reads them. They speak the names of the file
format exactly if those names are left alone by the conversion to names of structures.
-/

namespace NifBindings

/-- Whether a name is an identifier of the generated sources that can stand in a byte string too:
basic letters, digits and underscores, and no reserved word. -/
def isIdentifier (name : String) : Bool :=
  !reservedWords.contains name &&
    match name.toList with
    | [] => false
    | first :: rest =>
      (first.isAlpha || first == '_' && !rest.isEmpty) &&
        rest.all fun c => c.isAlphanum || c == '_'

/-- Whether a text stands for itself between quotes, also in a byte string. -/
def isPlain (text : String) : Bool :=
  text.toList.all fun c => c.toNat < 128 && c != '\"' && c != '\\'

/-- Basic letters and digits are among the first 128 characters. -/
theorem toNat_lt_of_isAlphanum {c : Char} (h : c.isAlphanum = true) : c.toNat < 128 := by
  have hranges : c.isAlphanum =
      (decide (0x41 ≤ c.val ∧ c.val ≤ 0x5A) || (decide (0x61 ≤ c.val) && decide (c.val ≤ 0x7A)) ||
        (decide (0x30 ≤ c.val) && decide (c.val ≤ 0x39))) := rfl
  rw [hranges] at h
  simp only [Bool.or_eq_true, Bool.and_eq_true, decide_eq_true_eq, UInt32.le_iff_toNat_le] at h
  have hval : c.toNat = c.val.toNat := rfl
  have hlast : (0x5A : UInt32).toNat = 90 ∧ (0x7A : UInt32).toNat = 122 ∧
      (0x39 : UInt32).toNat = 57 := ⟨rfl, rfl, rfl⟩
  omega

/-- Every character of an identifier is a basic letter or digit or an underscore. -/
theorem isAlphanum_or_of_mem {name : String} (h : isIdentifier name = true) {c : Char}
    (hc : c ∈ name.toList) : c.isAlphanum = true ∨ c = '_' := by
  rw [isIdentifier, Bool.and_eq_true] at h
  cases htext : name.toList with
  | nil => simp [htext] at hc
  | cons first rest =>
    simp only [htext, Bool.and_eq_true, Bool.or_eq_true, beq_iff_eq, List.all_eq_true] at h
    rw [htext] at hc
    rcases List.mem_cons.mp hc with rfl | hc
    · exact h.2.1.imp (fun halpha => by simp [Char.isAlphanum, halpha]) And.left
    · exact h.2.2 c hc

/-- An identifier stands for itself between quotes. -/
theorem isPlain_of_isIdentifier {name : String} (h : isIdentifier name = true) :
    isPlain name = true := by
  rw [isPlain, List.all_eq_true]
  intro c hc
  rcases isAlphanum_or_of_mem h hc with halphanum | rfl
  · have hquote : c ≠ '\"' := by
      rintro rfl
      exact absurd halphanum (by decide)
    have hslash : c ≠ '\\' := by
      rintro rfl
      exact absurd halphanum (by decide)
    simp [toNat_lt_of_isAlphanum halphanum, hquote, hslash]
  · decide

/-- A text that stands for itself has no quote. -/
theorem quote_not_mem_of_isPlain {text : String} (h : isPlain text = true) :
    '\"' ∉ text.toList := by
  intro hc
  simpa using List.all_eq_true.mp h _ hc

/-- The bytes that a name is made of in a file. -/
def nameBytes (name : String) : List UInt8 :=
  name.toUTF8.data.toList

/-- Different names are made of different bytes. -/
theorem nameBytes_inj {a b : String} : nameBytes a = nameBytes b ↔ a = b := by
  unfold nameBytes
  rw [Array.toList_inj, ← ByteArray.ext_iff]
  exact String.toByteArray_inj

/-- An arm of a generated match, between a text in quotes and a variant. -/
structure Arm where
  /-- The text, which is the name of a block. -/
  text : String
  variant : String

namespace Arm

/-- Whether a line is an arm that reads a variant for a text. -/
def ReadsAs (line : String) (arm : Arm) : Prop :=
  isPlain arm.text = true ∧ isIdentifier arm.variant = true ∧
    line = "            b" ++ quoted arm.text ++ " => " ++ arm.variant ++
      "::read_options(reader, endian, (version,)).map(Self::" ++ arm.variant ++ "),"

/-- Whether a line is an arm that names a variant by a text. -/
def NamesAs (line : String) (arm : Arm) : Prop :=
  isPlain arm.text = true ∧ isIdentifier arm.variant = true ∧
    line = "            Self::" ++ arm.variant ++ "(_) => " ++ quoted arm.text ++ ","

/-- The variant that is read for the name of a block, by the first arm with that name. -/
def variant? (arms : List Arm) (name : List UInt8) : Option String :=
  (arms.find? fun arm => nameBytes arm.text = name).map variant

/-- The name of a variant, by the first arm with that variant. -/
def name? (arms : List Arm) (variant : String) : Option String :=
  (arms.find? fun arm => arm.variant = variant).map text

end Arm

section Quotes

variable {name text variant between middle behind : List Char}

/-- A name in quotes that is written twice more behind them can be told from the whole text. -/
theorem eq_of_reader_text (htext : '\"' ∉ text) (hvariant : '\"' ∉ variant)
    (hbetween : '\"' ∉ between) (hmiddle : '\"' ∉ middle) (hbehind : '\"' ∉ behind)
    (h : name ++ '\"' :: (between ++ (name ++ (middle ++ (name ++ behind)))) =
      text ++ '\"' :: (between ++ (variant ++ (middle ++ (variant ++ behind))))) :
    name = text ∧ name = variant := by
  have hcount := congrArg (List.count '\"') h
  simp only [List.count_append, List.count_cons_self, List.count_eq_zero_of_not_mem htext,
    List.count_eq_zero_of_not_mem hvariant, List.count_eq_zero_of_not_mem hbetween,
    List.count_eq_zero_of_not_mem hmiddle, List.count_eq_zero_of_not_mem hbehind] at hcount
  have hname : '\"' ∉ name := List.count_eq_zero.mp (by omega)
  rcases append_cons_cases h with ⟨rfl, -, hrest⟩ | ⟨more, rfl, -⟩ | ⟨more, rfl, -⟩
  · have hboth := List.append_cancel_left hrest
    have hlength := congrArg List.length hboth
    simp only [List.length_append] at hlength
    exact ⟨rfl, List.append_inj_left hboth (by omega)⟩
  · simp at htext
  · simp at hname

/-- A name that is written once more in quotes can be told from the whole text. -/
theorem eq_of_name_text (htext : '\"' ∉ text) (hvariant : '\"' ∉ variant)
    (hbetween : '\"' ∉ between) (hbehind : '\"' ∉ behind)
    (h : name ++ (between ++ '\"' :: (name ++ '\"' :: behind)) =
      variant ++ (between ++ '\"' :: (text ++ '\"' :: behind))) :
    name = text ∧ name = variant := by
  have hcount := congrArg (List.count '\"') h
  simp only [List.count_append, List.count_cons_self, List.count_eq_zero_of_not_mem htext,
    List.count_eq_zero_of_not_mem hvariant, List.count_eq_zero_of_not_mem hbetween,
    List.count_eq_zero_of_not_mem hbehind] at hcount
  have hname : '\"' ∉ name := List.count_eq_zero.mp (by omega)
  rw [← List.append_assoc, ← List.append_assoc] at h
  rcases append_cons_cases h with ⟨hfront, -, hrest⟩ | ⟨more, hfront, -⟩ | ⟨more, hfront, -⟩
  · exact ⟨List.append_cancel_right hrest, List.append_cancel_right hfront⟩
  · have hmem : '\"' ∈ variant ++ between := by simp [hfront]
    simp [hvariant, hbetween] at hmem
  · have hmem : '\"' ∈ name ++ between := by simp [hfront]
    simp [hname, hbetween] at hmem

end Quotes

namespace Dispatcher

/-- A reader's line tells the text and the variant of its arm, if they have no quotes. -/
theorem eq_of_readerLine {variant : BlockVariant} {arm : Arm} (htext : '\"' ∉ arm.text.toList)
    (hvariant : '\"' ∉ arm.variant.toList)
    (hline : readerLine variant = "            b" ++ quoted arm.text ++ " => " ++ arm.variant ++
      "::read_options(reader, endian, (version,)).map(Self::" ++ arm.variant ++ "),") :
    arm = ⟨variant.name, variant.name⟩ := by
  have hchars := congrArg String.toList hline
  have hquote : "\"".toList = ['\"'] := rfl
  unfold readerLine quoted at hchars
  simp only [String.toList_append, List.append_assoc] at hchars
  rw [hquote] at hchars
  obtain ⟨hname, htarget⟩ := eq_of_reader_text htext hvariant (by decide) (by decide) (by decide)
    (List.append_cancel_left (List.append_cancel_left hchars))
  obtain ⟨text, target⟩ := arm
  obtain rfl : variant.name = text := String.toList_inj.mp hname
  obtain rfl : variant.name = target := String.toList_inj.mp htarget
  rfl

/-- A line that names a variant tells the text and the variant of its arm, if they have no
quotes. -/
theorem eq_of_nameLine {variant : BlockVariant} {arm : Arm} (htext : '\"' ∉ arm.text.toList)
    (hvariant : '\"' ∉ arm.variant.toList)
    (hline : nameLine variant =
      "            Self::" ++ arm.variant ++ "(_) => " ++ quoted arm.text ++ ",") :
    arm = ⟨variant.name, variant.name⟩ := by
  have hchars := congrArg String.toList hline
  have hquote : "\"".toList = ['\"'] := rfl
  unfold nameLine quoted at hchars
  simp only [String.toList_append, List.append_assoc] at hchars
  rw [hquote] at hchars
  obtain ⟨hname, htarget⟩ := eq_of_name_text htext hvariant (by decide) (by decide)
    (List.append_cancel_left hchars)
  obtain ⟨text, target⟩ := arm
  obtain rfl : variant.name = text := String.toList_inj.mp hname
  obtain rfl : variant.name = target := String.toList_inj.mp htarget
  rfl

/-- The reader's line for a variant is read as the arm with its name, if that is an identifier. -/
theorem readsAs_readerLine_iff {variant : BlockVariant} {arm : Arm} :
    Arm.ReadsAs (readerLine variant) arm ↔
      isIdentifier variant.name = true ∧ arm = ⟨variant.name, variant.name⟩ := by
  constructor
  · rintro ⟨hplain, hidentifier, hline⟩
    obtain rfl := eq_of_readerLine (quote_not_mem_of_isPlain hplain)
      (quote_not_mem_of_isPlain (isPlain_of_isIdentifier hidentifier)) hline
    exact ⟨hidentifier, rfl⟩
  · rintro ⟨hidentifier, rfl⟩
    exact ⟨isPlain_of_isIdentifier hidentifier, hidentifier, rfl⟩

/-- The line that names a variant is read as the arm with its name, if that is an identifier. -/
theorem namesAs_nameLine_iff {variant : BlockVariant} {arm : Arm} :
    Arm.NamesAs (nameLine variant) arm ↔
      isIdentifier variant.name = true ∧ arm = ⟨variant.name, variant.name⟩ := by
  constructor
  · rintro ⟨hplain, hidentifier, hline⟩
    obtain rfl := eq_of_nameLine (quote_not_mem_of_isPlain hplain)
      (quote_not_mem_of_isPlain (isPlain_of_isIdentifier hidentifier)) hline
    exact ⟨hidentifier, rfl⟩
  · rintro ⟨hidentifier, rfl⟩
    exact ⟨isPlain_of_isIdentifier hidentifier, hidentifier, rfl⟩

/-- The arms of both matches of a dispatcher, each with the name of its variant. -/
def arms (dispatcher : Dispatcher) : List Arm :=
  dispatcher.variants.map fun variant => ⟨variant.name, variant.name⟩

/-- Lines are read as arms exactly if they are those of the variants, all with identifiers. -/
theorem forall₂_iff {line : BlockVariant → String} {reads : String → Arm → Prop}
    (hline : ∀ {variant arm}, reads (line variant) arm ↔
      isIdentifier variant.name = true ∧ arm = ⟨variant.name, variant.name⟩)
    {dispatcher : Dispatcher} {arms : List Arm} :
    List.Forall₂ reads (dispatcher.variants.map line) arms ↔
      (∀ variant ∈ dispatcher.variants, isIdentifier variant.name = true) ∧
        arms = dispatcher.arms := by
  unfold Dispatcher.arms
  induction dispatcher.variants generalizing arms with
  | nil => simp
  | cons variant rest ih =>
    rw [List.map_cons, List.forall₂_cons_left_iff]
    simp only [hline, ih, List.forall_mem_cons, List.map_cons]
    constructor
    · rintro ⟨arm, arms, ⟨hidentifier, rfl⟩, ⟨hrest, rfl⟩, rfl⟩
      exact ⟨⟨hidentifier, hrest⟩, rfl⟩
    · rintro ⟨⟨hidentifier, hrest⟩, rfl⟩
      exact ⟨_, _, ⟨hidentifier, rfl⟩, ⟨hrest, rfl⟩, rfl⟩

/-- Whether the source of a dispatcher speaks of a variant by the name of a block: both matches can
be read, the reader chooses the variant for this name and for no other one, and the variant has this
name. -/
def Speaks (dispatcher : Dispatcher) (variant block : String) : Prop :=
  ∃ readers names,
    List.Forall₂ Arm.ReadsAs (dispatcher.variants.map readerLine) readers ∧
      List.Forall₂ Arm.NamesAs (dispatcher.variants.map nameLine) names ∧
      (∀ bytes, Arm.variant? readers bytes = some variant ↔ bytes = nameBytes block) ∧
      Arm.name? names variant = some block

/-- Text and variant of an arm are the name of a variant. -/
theorem mem_arms_iff {dispatcher : Dispatcher} {arm : Arm} :
    arm ∈ dispatcher.arms ↔
      arm.text = arm.variant ∧ ∃ variant ∈ dispatcher.variants, variant.name = arm.variant := by
  obtain ⟨text, target⟩ := arm
  simp only [arms, List.mem_map, Arm.mk.injEq]
  constructor
  · rintro ⟨variant, hvariant, rfl, rfl⟩
    exact ⟨rfl, variant, hvariant, rfl⟩
  · rintro ⟨rfl, variant, hvariant, rfl⟩
    exact ⟨variant, hvariant, rfl, rfl⟩

variable {dispatcher : Dispatcher} {name : String}

/-- A variant is chosen for its name and for nothing else. -/
theorem variant?_arms (hmem : ∃ variant ∈ dispatcher.variants, variant.name = name)
    {bytes : List UInt8} :
    Arm.variant? dispatcher.arms bytes = some name ↔ bytes = nameBytes name := by
  unfold Arm.variant?
  rw [Option.map_eq_some_iff]
  constructor
  · rintro ⟨arm, harm, rfl⟩
    have hbytes : nameBytes arm.text = bytes := by simpa using List.find?_some harm
    rw [← hbytes, (mem_arms_iff.mp (List.mem_of_find?_eq_some harm)).1]
  · rintro rfl
    have hsome : (dispatcher.arms.find? fun arm => nameBytes arm.text = nameBytes name).isSome := by
      rw [List.find?_isSome]
      exact ⟨⟨name, name⟩, mem_arms_iff.mpr ⟨rfl, hmem⟩, by simp⟩
    obtain ⟨arm, harm⟩ := Option.isSome_iff_exists.mp hsome
    have hbytes : nameBytes arm.text = nameBytes name := by simpa using List.find?_some harm
    refine ⟨arm, harm, ?_⟩
    rw [← (mem_arms_iff.mp (List.mem_of_find?_eq_some harm)).1, nameBytes_inj.mp hbytes]

/-- A variant is named by its name. -/
theorem name?_arms (hmem : ∃ variant ∈ dispatcher.variants, variant.name = name) :
    Arm.name? dispatcher.arms name = some name := by
  unfold Arm.name?
  rw [Option.map_eq_some_iff]
  have hsome : (dispatcher.arms.find? fun arm => arm.variant = name).isSome := by
    rw [List.find?_isSome]
    exact ⟨⟨name, name⟩, mem_arms_iff.mpr ⟨rfl, hmem⟩, by simp⟩
  obtain ⟨arm, harm⟩ := Option.isSome_iff_exists.mp hsome
  have hvariant : arm.variant = name := by simpa using List.find?_some harm
  exact ⟨arm, harm, by rw [(mem_arms_iff.mp (List.mem_of_find?_eq_some harm)).1, hvariant]⟩

/-- A dispatcher speaks of one of its variants by a name exactly if all its variants have
identifiers and the name is that of the variant. -/
theorem speaks_iff {block : String}
    (hmem : ∃ variant ∈ dispatcher.variants, variant.name = name) :
    dispatcher.Speaks name block ↔
      (∀ variant ∈ dispatcher.variants, isIdentifier variant.name = true) ∧ name = block := by
  constructor
  · rintro ⟨readers, names, hreaders, hnames, -, hname⟩
    obtain ⟨hidentifiers, rfl⟩ := (forall₂_iff readsAs_readerLine_iff).mp hreaders
    obtain ⟨-, rfl⟩ := (forall₂_iff namesAs_nameLine_iff).mp hnames
    rw [name?_arms hmem] at hname
    exact ⟨hidentifiers, Option.some.inj hname⟩
  · rintro ⟨hidentifiers, rfl⟩
    exact ⟨dispatcher.arms, dispatcher.arms,
      (forall₂_iff readsAs_readerLine_iff).mpr ⟨hidentifiers, rfl⟩,
      (forall₂_iff namesAs_nameLine_iff).mpr ⟨hidentifiers, rfl⟩, fun bytes => variant?_arms hmem,
      name?_arms hmem⟩

/-- Every object that is not abstract has a variant. -/
theorem exists_variant_of_mem {profile : Profile} {model : Model} {object : NiObject}
    (hobject : object ∈ model.objects.values) (hconcrete : object.isAbstract = false) :
    ∃ variant ∈ (ofModel profile model).variants, variant.name = object.name := by
  refine ⟨_, List.mem_map.mpr ⟨object, ?_, rfl⟩, rfl⟩
  exact List.mem_filter.mpr ⟨hobject, by rw [hconcrete]; rfl⟩

/-- The source of the objects of a model holds its dispatcher. -/
theorem exists_lines_of_ofModel {profile : Profile} {model : Model} {bindings : Bindings}
    (h : Bindings.ofModel profile model = .ok bindings) :
    ∃ front back, bindings.objects =
      joinLines (front ++ (ofModel profile model).lines ++ back) := by
  obtain ⟨compounds, -, h⟩ := bind_eq_ok_iff.mp h
  obtain ⟨objects, hobjects, h⟩ := bind_eq_ok_iff.mp h
  obtain ⟨declarations, -, hobjects⟩ := bind_eq_ok_iff.mp hobjects
  cases hobjects
  cases h
  refine ⟨Bindings.header model.version ++ NiObject.preamble,
    declarations.flatMap ObjectDeclaration.lines, ?_⟩
  simp only [List.append_assoc]

/-- The dispatcher speaks the names of the file format exactly for the blocks whose names are left
as they are. The source of the objects holds the dispatcher. Every object that is not abstract comes
from an entry with a name, and the reader chooses its variant for this name alone, and the variant
has this name, exactly if the conversion to names of structures leaves the name alone and all blocks
have identifiers for names. -/
theorem speaks_iff_structureName_eq {building generating : Profile} {document : Document}
    {model : Model} {bindings : Bindings} {object : NiObject}
    (hmodel : Model.ofDocument building document = .ok model)
    (hbindings : Bindings.ofModel generating model = .ok bindings)
    (hobject : object ∈ model.objects.values) (hconcrete : object.isAbstract = false) :
    (∃ front back, bindings.objects =
        joinLines (front ++ (ofModel generating model).lines ++ back)) ∧
      (∃ entry findings, building.declares .object entry = true ∧
        NiObject.ofElement building entry = .ok (object, findings)) ∧
      ∀ {entry : Element} {findings : List Diagnostic} {block : String},
        NiObject.ofElement building entry = .ok (object, findings) →
          entry.get? "name" = some block →
            ((ofModel generating model).Speaks object.name block ↔
              (∀ other ∈ model.concreteObjects, isIdentifier other.name = true) ∧
                structureName block = block) := by
  refine ⟨exists_lines_of_ofModel hbindings,
    Model.exists_ofElement_of_mem_objects hmodel hobject, ?_⟩
  intro entry findings block hentry hblock
  obtain ⟨⟨written, hwritten, hname⟩, -⟩ := NiObject.exists_of_ofElement hentry
  rw [hblock, Option.some.injEq] at hwritten
  rw [speaks_iff (exists_variant_of_mem hobject hconcrete), hname, hwritten]
  exact and_congr_left' List.forall_mem_map

/-- An object that inherits from the root. -/
def blockElement (name : String) : Element where
  tag := "niobject"
  attributes := .ofList [("name", name), ("inherit", "NiObject")]
  text := ""
  children := []

/-- A profile that leaves out no names. -/
def everyName : Profile :=
  { Profile.default with excludedBeginnings := [] }

/-- A document with one block has a model with its object alone. -/
theorem exists_of_blockElement {name : String}
    (hemits : everyName.emitsEntry (blockElement name).attributes = .ok true)
    (hdeclares : everyName.declares .object (blockElement name) = true)
    (hbindings : ((Model.ofDocument everyName ⟨none, [blockElement name]⟩).toOption.bind
      fun model => (Bindings.ofModel everyName model).toOption).isSome = true) :
    ∃ model bindings object findings,
      Model.ofDocument everyName ⟨none, [blockElement name]⟩ = .ok model ∧
        Bindings.ofModel everyName model = .ok bindings ∧ model.objects.values = [object] ∧
        NiObject.ofElement everyName (blockElement name) = .ok (object, findings) := by
  obtain ⟨bindings, hbindings⟩ := Option.isSome_iff_exists.mp hbindings
  obtain ⟨model, hmodel, hbindings⟩ := Option.bind_eq_some_iff.mp hbindings
  rw [toOption_eq_some_iff] at hmodel hbindings
  obtain ⟨entries, hentries, hkinds⟩ := Model.exists_declared hmodel
  rw [filterEmitted_singleton hemits] at hentries
  cases hentries
  obtain ⟨declared, hdeclared, hstored⟩ := hkinds .object
  rw [List.filter_cons_of_pos hdeclares, List.filter_nil, List.mapM_cons] at hdeclared
  obtain ⟨named, hread, hdeclared⟩ := bind_eq_ok_iff.mp hdeclared
  cases hdeclared
  rw [EntryKind.read] at hread
  obtain ⟨⟨object, findings⟩, hobject, rfl⟩ := map_eq_ok_iff.mp hread
  obtain ⟨⟨key, stored⟩, hvalues, hsame⟩ :=
    List.map_eq_singleton_iff.mp (congrArg OrderedMap.entries hstored)
  cases hsame
  refine ⟨model, bindings, object, findings, hmodel, hbindings, ?_, hobject⟩
  rw [OrderedMap.values, hvalues]
  rfl

/-- The dispatcher speaks of a block whose name begins with a capital letter by its name. -/
theorem speaks_iff_structureName_eq_node :
    ∃ model bindings object,
      Model.ofDocument everyName ⟨none, [blockElement "NiNode"]⟩ = .ok model ∧
        Bindings.ofModel everyName model = .ok bindings ∧ object ∈ model.objects.values ∧
        (ofModel everyName model).Speaks object.name "NiNode" := by
  obtain ⟨model, bindings, object, findings, hmodel, hbindings, hvalues, hobject⟩ :=
    @exists_of_blockElement "NiNode" (by decide +kernel) (by decide +kernel) (by decide +kernel)
  obtain ⟨⟨name, hname, hobjectname⟩, hconcrete, -⟩ := NiObject.exists_of_ofElement hobject
  cases hname
  have hmem : object ∈ model.objects.values := by simp [hvalues]
  obtain ⟨-, -, hspeaks⟩ := speaks_iff_structureName_eq hmodel hbindings hmem hconcrete
  refine ⟨model, bindings, object, hmodel, hbindings, hmem, (hspeaks hobject rfl).mpr ⟨?_, ?_⟩⟩
  · intro other hother
    have hsame : other ∈ model.objects.values := (List.mem_filter.mp hother).1
    rw [hvalues, List.mem_singleton] at hsame
    rw [hsame, hobjectname]
    decide +kernel
  · decide +kernel

/-- The dispatcher does not speak of a block whose name begins with a small letter by its name. -/
theorem not_speaks_rigidBody :
    ∃ model bindings object findings,
      Model.ofDocument everyName ⟨none, [blockElement "bhkRigidBody"]⟩ = .ok model ∧
        Bindings.ofModel everyName model = .ok bindings ∧ object ∈ model.objects.values ∧
        object.isAbstract = false ∧
        NiObject.ofElement everyName (blockElement "bhkRigidBody") = .ok (object, findings) ∧
        ¬(ofModel everyName model).Speaks object.name "bhkRigidBody" := by
  obtain ⟨model, bindings, object, findings, hmodel, hbindings, hvalues, hobject⟩ :=
    @exists_of_blockElement "bhkRigidBody" (by decide +kernel) (by decide +kernel)
      (by decide +kernel)
  obtain ⟨⟨name, hname, hobjectname⟩, hconcrete, -⟩ := NiObject.exists_of_ofElement hobject
  cases hname
  have hmem : object ∈ model.objects.values := by simp [hvalues]
  refine ⟨model, bindings, object, findings, hmodel, hbindings, hmem, hconcrete, hobject, ?_⟩
  rw [speaks_iff (exists_variant_of_mem hmem hconcrete), hobjectname]
  exact fun h => absurd h.2 (by decide +kernel)

end Dispatcher

end NifBindings
